/-
  FuzzBundle.Proofs.LiteralGrammar — the grammar of numbers, and that the reader is for it.

  `SpellsLiteral` says which characters spell a literal: digits without a leading zero, perhaps a
  fraction, perhaps an exponent. `scanLiteral` reads exactly these: it reads every literal wherever
  no digit, point or exponent follows, and nothing else.

  Main statements: `scanLiteral_spelled`, `spells_of_scanLiteral`.
-/
import FuzzBundle.Json.Printer
import FuzzBundle.Json.Reader
import Mathlib.Data.List.Basic

namespace FuzzBundle.Written

/-! ## §1. Digits -/

/-- The number that a digit stands for. -/
def digitValue (c : Char) : Nat := c.toNat - '0'.toNat

/-- One or more decimal digits. -/
def IsDigits (cs : List Char) : Prop := cs ≠ [] ∧ cs.all Char.isDigit = true

/-- Digits are read up to the first character that is none. -/
theorem scanDigits_append {cs rest : List Char} (digits : cs.all Char.isDigit = true)
    (ends : rest.head?.any Char.isDigit = false) :
    scanDigits (cs ++ rest) = (cs.map digitValue, rest) := by
  induction cs with
  | nil =>
    cases rest with
    | nil => rfl
    | cons c rest =>
      have other : c.isDigit = false := ends
      simp [scanDigits, other]
  | cons c cs ih =>
    rw [List.all_cons, Bool.and_eq_true] at digits
    rw [List.cons_append, scanDigits, if_pos digits.1, ih digits.2]
    rfl

theorem eq_zero_of_digitValue {c : Char} (digit : c.isDigit = true) (h : digitValue c = 0) :
    c = '0' := by
  have least : '0'.toNat ≤ c.toNat := (of_decide_eq_true (Bool.and_eq_true_iff.1 digit).1 : _)
  have value : c.toNat - '0'.toNat = 0 := h
  exact Char.toNat_inj.1 (by omega)

theorem IsDigits.exists_cons {cs : List Char} (h : IsDigits cs) :
    ∃ c more, cs = c :: more ∧ c.isDigit = true := by
  obtain ⟨c, more, rfl⟩ := List.exists_cons_of_ne_nil h.1
  exact ⟨c, more, rfl, List.all_eq_true.1 h.2 c List.mem_cons_self⟩

theorem isDigits_decimalDigits (n : Nat) : IsDigits (decimalDigits n) :=
  ⟨Nat.toDigits_ne_nil,
    List.all_eq_true.2 fun _ hc => Nat.isDigit_of_mem_toDigits (by decide) (by decide) hc⟩

/-- Whether a character may go on with a number. -/
def continuesNumber (c : Char) : Bool := c.isDigit || c == '.' || c == 'e' || c == 'E'

/-- No number goes on here. -/
def EndsNumber (rest : List Char) : Prop := rest.head?.any continuesNumber = false

theorem EndsNumber.digit {rest : List Char} (ends : EndsNumber rest) :
    rest.head?.any Char.isDigit = false := by
  cases rest with
  | nil => rfl
  | cons c rest =>
    have other : continuesNumber c = false := ends
    simp only [continuesNumber, Bool.or_eq_false_iff] at other
    exact other.1.1.1

/-- Digits are read to their end, and they are no empty list. -/
theorem scanDigits_isDigits {cs rest : List Char} (digits : IsDigits cs)
    (ends : rest.head?.any Char.isDigit = false) :
    ∃ d ds, cs.map digitValue = d :: ds ∧ scanDigits (cs ++ rest) = (d :: ds, rest) := by
  obtain ⟨c, more, rfl⟩ := List.exists_cons_of_ne_nil digits.1
  exact ⟨_, _, rfl, scanDigits_append digits.2 ends⟩

/-! ## §2. The grammar of literals -/

/-- The point of a number and the digits after it, if there is one. -/
inductive SpellsFraction : List Char → Option (List Nat) → Prop where
  | none : SpellsFraction [] none
  | some {digits : List Char} : IsDigits digits →
      SpellsFraction ('.' :: digits) (some (digits.map digitValue))

/-- The sign of an exponent, if there is one. -/
inductive SpellsSign : List Char → Bool → Prop where
  | none : SpellsSign [] false
  | plus : SpellsSign ['+'] false
  | minus : SpellsSign ['-'] true

/-- The letter of an exponent, its sign and its digits, if there is one. -/
inductive SpellsExponent : List Char → Option (Bool × List Nat) → Prop where
  | none : SpellsExponent [] none
  | some {letter : Char} {sign digits : List Char} {negative : Bool} :
      letter = 'e' ∨ letter = 'E' → SpellsSign sign negative → IsDigits digits →
      SpellsExponent (letter :: (sign ++ digits)) (some (negative, digits.map digitValue))

/-- A number without its sign. A zero in front stands alone. -/
inductive SpellsUnsigned (negative : Bool) : List Char → Json.Literal → Prop where
  | number {whole fraction exponent : List Char} {f : Option (List Nat)}
      {e : Option (Bool × List Nat)} :
      IsDigits whole → (whole.head? = some '0' → whole = ['0']) → SpellsFraction fraction f →
      SpellsExponent exponent e →
      SpellsUnsigned negative (whole ++ (fraction ++ exponent))
        ⟨negative, whole.map digitValue, f, e⟩

/-- A number. -/
inductive SpellsLiteral : List Char → Json.Literal → Prop where
  | plain {cs : List Char} {l : Json.Literal} : SpellsUnsigned false cs l → SpellsLiteral cs l
  | negative {cs : List Char} {l : Json.Literal} :
      SpellsUnsigned true cs l → SpellsLiteral ('-' :: cs) l

/-! ## §3. What is spelled is read -/

section Spelled

variable {text rest : List Char}

theorem scanSign_spelled {sign digits : List Char} {negative : Bool} (h : SpellsSign sign negative)
    (isDigits : IsDigits digits) :
    scanSign (sign ++ (digits ++ rest)) = (negative, digits ++ rest) := by
  cases h with
  | plus => rfl
  | minus => rfl
  | none =>
    -- digits begin with no sign
    obtain ⟨c, more, rfl, digit⟩ := isDigits.exists_cons
    rw [List.nil_append, List.cons_append]
    unfold scanSign
    split
    · next eq => rw [(List.cons.inj eq).1] at digit; cases digit
    · next eq => rw [(List.cons.inj eq).1] at digit; cases digit
    · rfl

/-- An exponent is read where it is spelled, or none where none is. -/
theorem scanExponent_spelled {e : Option (Bool × List Nat)} (h : SpellsExponent text e)
    (ends : EndsNumber rest) : scanExponent (text ++ rest) = some (e, rest) := by
  cases h with
  | none =>
    cases rest with
    | nil => rfl
    | cons c rest =>
      have other : continuesNumber c = false := ends
      simp only [continuesNumber, Bool.or_eq_false_iff, beq_eq_false_iff_ne] at other
      rw [List.nil_append, scanExponent, if_neg (by simp [other.1.2, other.2])]
  | some letter signed isDigits =>
    obtain ⟨d, ds, value, scanned⟩ := scanDigits_isDigits isDigits ends.digit
    rw [List.cons_append, List.append_assoc, scanExponent, if_pos letter]
    simp only [scanSign_spelled signed isDigits, scanned, value]

/-- A fraction is read where it is spelled, or none where none is. -/
theorem scanFraction_spelled {f : Option (List Nat)} (h : SpellsFraction text f)
    (noDigit : rest.head?.any Char.isDigit = false) (noPoint : rest.head?.any (· == '.') = false) :
    scanFraction (text ++ rest) = some (f, rest) := by
  cases h with
  | none =>
    rw [List.nil_append]
    unfold scanFraction
    split
    · cases noPoint
    · rfl
  | some isDigits =>
    obtain ⟨d, ds, value, scanned⟩ := scanDigits_isDigits isDigits noDigit
    rw [List.cons_append]
    simp only [scanFraction, scanned, value]

/-- Before an exponent stands neither another digit nor another point. -/
theorem SpellsExponent.head {e : Option (Bool × List Nat)} (h : SpellsExponent text e)
    (ends : EndsNumber rest) :
    (text ++ rest).head?.any Char.isDigit = false
      ∧ (text ++ rest).head?.any (· == '.') = false := by
  cases h with
  | none =>
    refine ⟨ends.digit, ?_⟩
    cases rest with
    | nil => rfl
    | cons c rest =>
      have other : continuesNumber c = false := ends
      simp only [continuesNumber, Bool.or_eq_false_iff] at other
      exact other.1.1.2
  | some letter => rcases letter with rfl | rfl <;> exact ⟨rfl, rfl⟩

theorem SpellsFraction.head {f : Option (List Nat)} (h : SpellsFraction text f)
    (noDigit : rest.head?.any Char.isDigit = false) :
    (text ++ rest).head?.any Char.isDigit = false := by
  cases h with
  | none => exact noDigit
  | some _ => rfl

theorem scanUnsigned_spelled {negative : Bool} {l : Json.Literal}
    (h : SpellsUnsigned negative text l) (ends : EndsNumber rest) :
    scanUnsigned negative (text ++ rest) = some (l, rest) := by
  cases h with
  | @number whole fraction exponent f e isDigits leading spelledFraction spelledExponent =>
    obtain ⟨noDigit, noPoint⟩ := spelledExponent.head ends
    have scanned := scanDigits_append isDigits.2 (spelledFraction.head noDigit)
    rw [List.append_assoc, List.append_assoc, scanUnsigned]
    simp only [scanned]
    split
    · next empty => exact absurd (List.map_eq_nil_iff.1 empty) isDigits.1
    · next d ds zero =>
      -- a zero in front of other digits would be a leading one
      obtain ⟨c, cs, rfl, digit⟩ := isDigits.exists_cons
      rw [List.map_cons, List.cons.injEq] at zero
      have alone := leading (by rw [eq_zero_of_digitValue digit zero.1]; rfl)
      rw [List.cons.injEq] at alone
      rw [alone.2] at zero
      cases zero.2
    · rw [scanFraction_spelled spelledFraction noDigit noPoint, Option.bind_eq_bind,
        Option.bind_some]
      simp only [scanExponent_spelled spelledExponent ends, Option.bind_eq_bind, Option.bind_some]

/-- What has no sign begins with a digit. -/
theorem SpellsUnsigned.exists_cons {negative : Bool} {l : Json.Literal}
    (h : SpellsUnsigned negative text l) : ∃ c more, text = c :: more ∧ c.isDigit = true := by
  cases h with
  | number isDigits =>
    obtain ⟨c, more, rfl, digit⟩ := isDigits.exists_cons
    exact ⟨c, _, rfl, digit⟩

/-- **A literal is read where it is spelled**, if no number goes on after it. -/
theorem scanLiteral_spelled {l : Json.Literal} (h : SpellsLiteral text l)
    (ends : EndsNumber rest) : scanLiteral (text ++ rest) = some (l, rest) := by
  cases h with
  | negative spelled => exact scanUnsigned_spelled spelled ends
  | plain spelled =>
    have read := scanUnsigned_spelled spelled ends
    obtain ⟨c, more, rfl, digit⟩ := spelled.exists_cons
    rw [List.cons_append] at read ⊢
    unfold scanLiteral
    split
    · next minus => rw [(List.cons.inj minus).1] at digit; cases digit
    · exact read

end Spelled

/-! ## §4. What is read is spelled -/

/-- What digits are read from. -/
theorem scanDigits_used (cs : List Char) :
    ∃ digits, cs = digits ++ (scanDigits cs).2 ∧ digits.all Char.isDigit = true
      ∧ (scanDigits cs).1 = digits.map digitValue := by
  induction cs with
  | nil => exact ⟨[], rfl, rfl, rfl⟩
  | cons c rest ih =>
    rw [scanDigits]
    split
    · next digit =>
      obtain ⟨digits, eq, all, value⟩ := ih
      refine ⟨c :: digits, congrArg (c :: ·) eq, ?_, congrArg (digitValue c :: ·) value⟩
      rw [List.all_cons, digit, all]
      rfl
    · exact ⟨[], rfl, rfl, rfl⟩

theorem exists_isDigits {cs rest : List Char} {d : Nat} {ds : List Nat}
    (h : scanDigits cs = (d :: ds, rest)) :
    ∃ digits, cs = digits ++ rest ∧ IsDigits digits ∧ d :: ds = digits.map digitValue := by
  obtain ⟨digits, eq, all, value⟩ := scanDigits_used cs
  rw [h] at eq value
  refine ⟨digits, eq, ⟨fun empty => ?_, all⟩, value⟩
  rw [empty] at value
  cases value

theorem spells_of_scanFraction {cs rest : List Char} {f : Option (List Nat)}
    (h : scanFraction cs = some (f, rest)) : ∃ used, cs = used ++ rest ∧ SpellsFraction used f := by
  unfold scanFraction at h
  split at h
  · split at h
    · cases h
    · next digits after present scanned =>
      cases h
      obtain ⟨d, ds, rfl⟩ := List.exists_cons_of_ne_nil present
      obtain ⟨spelled, rfl, isDigits, value⟩ := exists_isDigits scanned
      exact ⟨'.' :: spelled, rfl, value ▸ .some isDigits⟩
  · cases h
    exact ⟨[], rfl, .none⟩

theorem scanSign_used (cs : List Char) :
    ∃ used, cs = used ++ (scanSign cs).2 ∧ SpellsSign used (scanSign cs).1 := by
  unfold scanSign
  split
  · exact ⟨['-'], rfl, .minus⟩
  · exact ⟨['+'], rfl, .plus⟩
  · exact ⟨[], rfl, .none⟩

theorem spells_of_scanExponent {cs rest : List Char} {e : Option (Bool × List Nat)}
    (h : scanExponent cs = some (e, rest)) : ∃ used, cs = used ++ rest ∧ SpellsExponent used e := by
  cases cs with
  | nil =>
    cases h
    exact ⟨[], rfl, .none⟩
  | cons c cs =>
    rw [scanExponent] at h
    split at h
    · next letter =>
      obtain ⟨sign, eq, signed⟩ := scanSign_used cs
      simp only at h
      split at h
      · cases h
      · next digits after present scanned =>
        cases h
        obtain ⟨d, ds, rfl⟩ := List.exists_cons_of_ne_nil present
        obtain ⟨spelled, read, isDigits, value⟩ := exists_isDigits scanned
        refine ⟨c :: (sign ++ spelled), ?_, value ▸ .some letter signed isDigits⟩
        rw [List.cons_append, List.append_assoc, ← read, ← eq]
    · cases h
      exact ⟨[], rfl, .none⟩

theorem spells_of_scanUnsigned {negative : Bool} {cs rest : List Char} {l : Json.Literal}
    (h : scanUnsigned negative cs = some (l, rest)) :
    ∃ used, cs = used ++ rest ∧ SpellsUnsigned negative used l := by
  obtain ⟨whole, eq, all, value⟩ := scanDigits_used cs
  rw [scanUnsigned] at h
  simp only at h
  split at h
  · cases h
  · cases h
  · next present leading =>
    simp only [Option.bind_eq_bind, Option.bind_eq_some_iff] at h
    obtain ⟨⟨f, afterFraction⟩, fraction, ⟨e, after⟩, exponent, result⟩ := h
    cases result
    obtain ⟨fractionUsed, readFraction, spelledFraction⟩ := spells_of_scanFraction fraction
    obtain ⟨exponentUsed, readExponent, spelledExponent⟩ := spells_of_scanExponent exponent
    refine ⟨whole ++ (fractionUsed ++ exponentUsed), ?_, ?_⟩
    · simp only at readFraction readExponent
      rw [List.append_assoc, List.append_assoc, ← readExponent, ← readFraction, ← eq]
    · rw [value]
      refine .number ⟨fun empty => present ?_, all⟩ (fun zero => ?_) spelledFraction spelledExponent
      · rw [value, empty]
        rfl
      · -- digits behind a zero would make it a leading one
        cases whole with
        | nil => cases zero
        | cons c more =>
          cases zero
          cases more with
          | nil => rfl
          | cons d more => exact absurd value (leading (digitValue d) (more.map digitValue))

theorem spells_of_scanLiteral {cs rest : List Char} {l : Json.Literal}
    (h : scanLiteral cs = some (l, rest)) : ∃ used, cs = used ++ rest ∧ SpellsLiteral used l := by
  unfold scanLiteral at h
  split at h
  · obtain ⟨used, rfl, spelled⟩ := spells_of_scanUnsigned h
    exact ⟨'-' :: used, rfl, .negative spelled⟩
  · obtain ⟨used, rfl, spelled⟩ := spells_of_scanUnsigned h
    exact ⟨used, rfl, .plain spelled⟩

theorem not_mem_digits {digits : List Char} (h : IsDigits digits) : 'x' ∉ digits :=
  fun mem => absurd (List.all_eq_true.1 h.2 'x' mem) (by decide)

/-- No letter of a number is that one. -/
theorem SpellsLiteral.not_mem {cs : List Char} {l : Json.Literal} (h : SpellsLiteral cs l) :
    'x' ∉ cs := by
  have unsigned {negative : Bool} {cs : List Char} {l : Json.Literal}
      (h : SpellsUnsigned negative cs l) : 'x' ∉ cs := by
    cases h with
    | @number whole fraction exponent f e digits leading spelledFraction spelledExponent =>
      have inFraction : 'x' ∉ fraction := by
        cases spelledFraction with
        | none => simp
        | some digits => simp [not_mem_digits digits]
      have inExponent : 'x' ∉ exponent := by
        cases spelledExponent with
        | none => simp
        | some letter sign digits =>
          rcases letter with rfl | rfl <;> cases sign <;> simp [not_mem_digits digits]
      simp [not_mem_digits digits, inFraction, inExponent]
  cases h with
  | plain spelled => exact unsigned spelled
  | negative spelled => simp [unsigned spelled]

end FuzzBundle.Written
