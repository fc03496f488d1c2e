/-
  FuzzBundle.Proofs.ExpressionWords — reading words and numbers.

  A word ends where its characters end. A decimal number has digits, perhaps a point with digits
  behind it, perhaps an exponent; the point belongs to the number only if a digit follows, because
  otherwise it selects a member. So a number is read whole (`readNumeral_append`) where no word and
  no further digits go on.

  Main statements: `readRun_append`, `readNumeral_append`.
-/
import FuzzBundle.Proofs.ExpressionTrees
import FuzzBundle.Proofs.ListReading

namespace FuzzBundle.Solidity.Parenthesized

/-! ## §1. Readers of words and numbers -/

/-- Reads the longest run of characters of a kind, which must make up what is asked for. -/
def readRun (q : String → Prop) [DecidablePred q] (p : Char → Bool) : Reader Char { s // q s } :=
  fun cs =>
    if h : q (.ofList (cs.takeWhile p)) then some (⟨_, h⟩, cs.dropWhile p) else none

def readDigits : Reader Char Digits := readRun IsDigits isDigitChar

def readSignificand : Reader Char Significand
  | '.' :: cs => (readDigits cs).map fun (digits, cs) => (.fraction digits, cs)
  | cs =>
    match readDigits cs with
    | some (digits, '.' :: cs) =>
      match readDigits cs with
      | some (behind, cs) => some (.decimal digits behind, cs)
      | none => some (.whole digits, '.' :: cs)
    | some (digits, cs) => some (.whole digits, cs)
    | none => none

/-- Reads the minus of an exponent, if there is one. -/
def readMinus : List Char → Bool × List Char
  | '-' :: cs => (true, cs)
  | cs => (false, cs)

/-- Reads an exponent, if one begins. -/
def readExponent : Reader Char (Option Exponent)
  | [] => some (none, [])
  | c :: cs =>
    if c = 'e' ∨ c = 'E' then
      (readDigits (readMinus cs).2).map fun (digits, rest) =>
        (some ⟨c = 'E', (readMinus cs).1, digits⟩, rest)
    else some (none, c :: cs)

def readNumeral : Reader Char Numeral := fun cs =>
  (readSignificand cs).bind fun (significand, cs) =>
    (readExponent cs).map fun (exponent, cs) => (⟨significand, exponent⟩, cs)

/-! ## §2. What was written is read -/

theorem readRun_eq_some {q : String → Prop} [DecidablePred q] {p : Char → Bool} {cs : List Char}
    {s : { s // q s }} (h : String.ofList (cs.takeWhile p) = s.val) :
    readRun q p cs = some (s, cs.dropWhile p) := by
  obtain ⟨s, holds⟩ := s
  subst h
  rw [readRun, dif_pos holds]

/-- A run that ends where the characters of its kind end is read. -/
theorem readRun_append {q : String → Prop} [DecidablePred q] {p : Char → Bool} (s : { s // q s })
    {rest : List Char} (h : s.val.toList.all p = true) (ends : rest.head?.any p = false) :
    readRun q p (s.val.toList ++ rest) = some (s, rest) := by
  rw [readRun_eq_some (s := s), dropWhile_append_ends h ends]
  rw [takeWhile_append_ends h ends, String.ofList_toList]

/-- Nothing is read where the run is not what is asked for. -/
theorem readRun_eq_none {q : String → Prop} [DecidablePred q] {p : Char → Bool} {cs : List Char}
    (h : ¬ q (.ofList (cs.takeWhile p))) : readRun q p cs = none := by
  rw [readRun, dif_neg h]

theorem isWordChar_of_isDigitChar {c : Char} (h : isDigitChar c = true) : isWordChar c = true := by
  simp only [isDigitChar, Bool.or_eq_true] at h
  rcases h with h | h <;> simp [isWordChar, Char.isAlphanum, h]

theorem noDigitChar_of_noWordChar {cs : List Char} (h : cs.head?.any isWordChar = false) :
    cs.head?.any isDigitChar = false := by
  cases cs with
  | nil => rfl
  | cons c cs =>
    have word : isWordChar c = false := h
    cases digit : isDigitChar c with
    | false => exact digit
    | true => rw [isWordChar_of_isDigitChar digit] at word; cases word

theorem readDigits_append (digits : Digits) {rest : List Char}
    (ends : rest.head?.any isDigitChar = false) :
    readDigits (digits.val.toList ++ rest) = some (digits, rest) :=
  readRun_append digits digits.property.1 ends

/-- Digits begin with a digit, not with a line that groups them. -/
theorem readDigits_eq_none {cs : List Char} (h : cs.head?.any Char.isDigit = false) :
    readDigits cs = none := by
  refine readRun_eq_none fun digits => ?_
  have first := digits.2
  rw [String.toList_ofList] at first
  cases cs with
  | nil => cases first
  | cons c cs =>
    have noDigit : c.isDigit = false := h
    rw [List.takeWhile_cons] at first
    split at first
    · exact absurd first (by simp [noDigit])
    · cases first

/-- Digits are some characters, of which the first is a digit. -/
theorem Digits.exists_cons (digits : Digits) :
    ∃ c cs, digits.val.toList = c :: cs ∧ c.isDigit = true := by
  obtain ⟨-, first⟩ := digits.property
  cases spelled : digits.val.toList with
  | nil => rw [spelled] at first; cases first
  | cons c cs => rw [spelled] at first; exact ⟨c, cs, rfl, first⟩

theorem readSignificand_append (s : Significand) {rest : List Char}
    (ends : rest.head?.any isDigitChar = false)
    (point : ∀ cs, rest = '.' :: cs → cs.head?.any Char.isDigit = false) :
    readSignificand (s.text ++ rest) = some (s, rest) := by
  have noPoint (digits : Digits) (rest cs : List Char) : digits.val.toList ++ rest ≠ '.' :: cs := by
    obtain ⟨c, ds, spelled, digit⟩ := digits.exists_cons
    rw [spelled, List.cons_append]
    rintro ⟨⟩
    exact absurd digit (by decide)
  cases s with
  | whole digits =>
    rw [Significand.text, readSignificand, readDigits_append digits ends]
    · split
      · next h =>
        cases h
        rw [readDigits_eq_none (point _ rfl)]
      · next h => cases h; rfl
      · next h => cases h
    · exact noPoint digits rest
  | decimal digits behind =>
    rw [Significand.text, List.append_assoc, List.cons_append, readSignificand,
      readDigits_append digits rfl]
    · simp only [readDigits_append behind ends]
    · exact noPoint digits _
  | fraction digits =>
    rw [Significand.text, List.cons_append, readSignificand, readDigits_append digits ends]
    rfl

theorem readExponent_append (e : Option Exponent) {rest : List Char}
    (ends : rest.head?.any isWordChar = false) :
    readExponent ((e.map Exponent.text).getD [] ++ rest) = some (e, rest) := by
  cases e with
  | none =>
    cases rest with
    | nil => rfl
    | cons c rest =>
      have other : ¬(c = 'e' ∨ c = 'E') := by
        rintro (rfl | rfl) <;> cases ends
      exact if_neg other
  | some e =>
    obtain ⟨upperCase, negative, digits⟩ := e
    have read := readDigits_append digits (noDigitChar_of_noWordChar ends)
    have minus : readMinus ((if negative then ['-'] else []) ++ digits.val.toList ++ rest)
        = (negative, digits.val.toList ++ rest) := by
      cases negative with
      | true => rfl
      | false =>
        obtain ⟨c, cs, spelled, digit⟩ := digits.exists_cons
        simp only [spelled, Bool.false_eq_true, if_false, List.nil_append, List.cons_append]
        rw [readMinus]
        rintro _ ⟨⟩
        exact absurd digit (by decide)
    rw [Option.map_some, Option.getD_some, Exponent.text, List.cons_append, readExponent,
      if_pos (by cases upperCase <;> simp), minus, read]
    cases upperCase <;> rfl

theorem readNumeral_append (v : Numeral) {rest : List Char}
    (ends : rest.head?.any isWordChar = false)
    (point : ∀ cs, rest = '.' :: cs → cs.head?.any Char.isDigit = false) :
    readNumeral (v.text ++ rest) = some (v, rest) := by
  have significand : readSignificand (v.significand.text
      ++ ((v.exponent.map Exponent.text).getD [] ++ rest))
      = some (v.significand, (v.exponent.map Exponent.text).getD [] ++ rest) := by
    cases v.exponent with
    | none => exact readSignificand_append _ (noDigitChar_of_noWordChar ends) point
    | some e =>
      refine readSignificand_append _ ?_ ?_
      · obtain ⟨upperCase, _, _⟩ := e
        cases upperCase <;> rfl
      · obtain ⟨upperCase, _, _⟩ := e
        cases upperCase <;> rintro _ ⟨⟩
  rw [Numeral.text, List.append_assoc, readNumeral, significand, Option.bind_some]
  simp only [readExponent_append v.exponent ends, Option.map_some]

/-- No number begins with something else than a digit or a point. -/
theorem readNumeral_eq_none {c : Char} {cs : List Char} (noDigit : c.isDigit = false)
    (noPoint : c ≠ '.') : readNumeral (c :: cs) = none := by
  have digits : readDigits (c :: cs) = none := readDigits_eq_none noDigit
  have significand : readSignificand (c :: cs) = none := by
    rw [readSignificand, digits]
    rintro _ ⟨⟩
    exact noPoint rfl
  rw [readNumeral, significand]
  rfl

end FuzzBundle.Solidity.Parenthesized
