/-
  FuzzBundle.Text.Quoted — text inside a double-quoted literal of the language.

  Backslashes and quotes are written with a backslash before them, line feed, carriage return and
  tab as `\n`, `\r` and `\t`, and the other control characters of ASCII as `\x` and two lower-case
  digits. All else stands for itself. `unescape` reads such a text, and reading what was written
  gives the text back (`unescape_escape`).
-/
import FuzzBundle.Text.Hex

namespace FuzzBundle.Quoted

/-- Whether a character is a control character of ASCII. -/
def isControl (c : Char) : Bool := c.toNat < 32 || c.toNat == 127

/-- How a character is written inside a literal. -/
def escapeChar (c : Char) : List Char :=
  if c = '\\' then ['\\', '\\']
  else if c = '"' then ['\\', '"']
  else if c = '\n' then ['\\', 'n']
  else if c = '\r' then ['\\', 'r']
  else if c = '\t' then ['\\', 't']
  else if isControl c then ['\\', 'x', Hex.digit (c.toNat / 16), Hex.digit (c.toNat % 16)]
  else [c]

/-- How characters are written inside a literal. -/
def escapeChars (cs : List Char) : List Char := cs.flatMap escapeChar

/-- How a text is written inside a literal. -/
def escape (s : String) : String := String.ofList (escapeChars s.toList)

/-- A text as a literal, quotes included. -/
def literal (s : String) : String := "\"" ++ escape s ++ "\""

/-- Reads what is written inside a literal. A quote that no backslash precedes and a backslash that
begins no escape are refused. -/
def unescape : List Char → Option (List Char)
  | [] => some []
  | '\\' :: '\\' :: rest => (unescape rest).map ('\\' :: ·)
  | '\\' :: '"' :: rest => (unescape rest).map ('"' :: ·)
  | '\\' :: 'n' :: rest => (unescape rest).map ('\n' :: ·)
  | '\\' :: 'r' :: rest => (unescape rest).map ('\r' :: ·)
  | '\\' :: 't' :: rest => (unescape rest).map ('\t' :: ·)
  | '\\' :: 'x' :: a :: b :: rest =>
    match Hex.lowerValue? a, Hex.lowerValue? b with
    | some high, some low => (unescape rest).map (Char.ofNat (16 * high + low) :: ·)
    | _, _ => none
  | c :: rest => if c = '\\' ∨ c = '"' then none else (unescape rest).map (c :: ·)

/-- Reading an escaped character in front of a text gives the character in front of the rest. -/
theorem unescape_escapeChar (c : Char) (rest : List Char) :
    unescape (escapeChar c ++ rest) = (unescape rest).map (c :: ·) := by
  unfold escapeChar
  split
  · next h => subst h; rw [List.cons_append, List.cons_append, List.nil_append, unescape]
  split
  · next h => subst h; rw [List.cons_append, List.cons_append, List.nil_append, unescape]
  split
  · next h => subst h; rw [List.cons_append, List.cons_append, List.nil_append, unescape]
  split
  · next h => subst h; rw [List.cons_append, List.cons_append, List.nil_append, unescape]
  split
  · next h => subst h; rw [List.cons_append, List.cons_append, List.nil_append, unescape]
  split
  · next h =>
    have hn : c.toNat < 128 := by
      simp only [isControl, Bool.or_eq_true, decide_eq_true_eq, beq_iff_eq] at h; omega
    simp only [List.cons_append, List.nil_append]
    rw [unescape, Hex.lowerValue?_digit (by omega), Hex.lowerValue?_digit (by omega)]
    simp only
    rw [show 16 * (c.toNat / 16) + c.toNat % 16 = c.toNat by omega, Char.ofNat_toNat]
  · next h₁ h₂ _ _ _ _ =>
    rw [List.cons_append, List.nil_append, unescape]
    · simp [h₁, h₂]
    all_goals (intros; simp_all)

/-- Reading what was written gives the text back. -/
theorem unescape_escape (cs : List Char) : unescape (escapeChars cs) = some cs := by
  induction cs with
  | nil => rfl
  | cons c cs ih =>
    rw [escapeChars, List.flatMap_cons, unescape_escapeChar]
    rw [escapeChars] at ih
    rw [ih]
    rfl

end FuzzBundle.Quoted
