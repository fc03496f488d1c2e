/-
  FuzzBundle.Text.Blank — white space, and taking things off the ends of a text.

  `isBlank` is the white space of the character standard, which is wider than `Char.isWhitespace`.
  `trim` removes it from both ends; `trimEndChar` and `trimEndText` remove a character or a text
  from the end as often as it stands there.
-/

namespace FuzzBundle.Text

/-- The characters with the property of being white space. -/
def isBlank (c : Char) : Bool :=
  let n := c.toNat
  (9 ≤ n && n ≤ 13) || n == 0x20 || n == 0x85 || n == 0xA0 || n == 0x1680 ||
    (0x2000 ≤ n && n ≤ 0x200A) || n == 0x2028 || n == 0x2029 || n == 0x202F || n == 0x205F ||
    n == 0x3000

/-- The visible characters of ASCII are no white space. -/
theorem isBlank_eq_false_of_visible {c : Char} (h : 33 ≤ c.toNat ∧ c.toNat ≤ 127) :
    isBlank c = false := by
  simp only [isBlank, Bool.or_eq_false_iff, Bool.and_eq_false_iff, decide_eq_false_iff_not,
    beq_eq_false_iff_ne]
  omega

/-- Removes from the end the characters that satisfy a test. -/
def dropEndWhile (p : Char → Bool) (cs : List Char) : List Char :=
  (cs.reverse.dropWhile p).reverse

/-- Characters without white space at either end. -/
def trimChars (cs : List Char) : List Char := dropEndWhile isBlank (cs.dropWhile isBlank)

/-- A text without white space at either end. -/
def trim (s : String) : String := String.ofList (trimChars s.toList)

/-- A text without the given character at its end, however often it stands there. -/
def trimEndChar (c : Char) (s : String) : String := String.ofList (dropEndWhile (· == c) s.toList)

/-- What follows a given beginning of a text. -/
def dropStart? (start : List Char) (cs : List Char) : Option (List Char) :=
  match start, cs with
  | [], cs => some cs
  | _ :: _, [] => none
  | a :: start, c :: cs => if a = c then dropStart? start cs else none

/-- Removes the characters of `start` from the beginning of `cs` as often as they stand there, at
most `fuel` times. -/
def dropStartRepeatedly (start : List Char) : Nat → List Char → List Char
  | 0, cs => cs
  | fuel + 1, cs =>
    match dropStart? start cs with
    | some rest => dropStartRepeatedly start fuel rest
    | none => cs

/-- A text without the given non-empty text at its end, however often it stands there. -/
def trimEndText (ending s : String) : String :=
  let cs := s.toList.reverse
  String.ofList (dropStartRepeatedly ending.toList.reverse cs.length cs).reverse

/-- A text without the given non-empty text at its beginning, however often it stands there. -/
def trimStartText (start s : String) : String :=
  let cs := s.toList
  String.ofList (dropStartRepeatedly start.toList cs.length cs)

/-- What follows a given beginning of a text, or the text itself. -/
def dropStart (start s : String) : String :=
  match dropStart? start.toList s.toList with
  | some rest => String.ofList rest
  | none => s

/-- Whether a text begins with another one. -/
def startsWith (start s : String) : Bool := (dropStart? start.toList s.toList).isSome

/-- Whether a text ends with another one. -/
def endsWith (ending s : String) : Bool :=
  (dropStart? ending.toList.reverse s.toList.reverse).isSome

theorem dropStart?_eq_some_iff {start cs rest : List Char} :
    dropStart? start cs = some rest ↔ cs = start ++ rest := by
  induction start generalizing cs with
  | nil => simp [dropStart?, eq_comm]
  | cons a start ih =>
    cases cs with
    | nil => simp [dropStart?]
    | cons c cs =>
      rw [dropStart?]
      by_cases h : a = c
      · subst h; simp [ih]
      · simp [h, Ne.symm h]

theorem isSome_dropStart? {start cs : List Char} :
    (dropStart? start cs).isSome = true ↔ start <+: cs := by
  rw [Option.isSome_iff_exists]
  constructor
  · rintro ⟨rest, h⟩
    exact ⟨rest, (dropStart?_eq_some_iff.1 h).symm⟩
  · rintro ⟨rest, h⟩
    exact ⟨rest, dropStart?_eq_some_iff.2 h.symm⟩

theorem startsWith_iff {start s : String} :
    startsWith start s = true ↔ start.toList <+: s.toList := isSome_dropStart?

end FuzzBundle.Text
