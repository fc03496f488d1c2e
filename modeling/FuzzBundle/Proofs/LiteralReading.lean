/-
  FuzzBundle.Proofs.LiteralReading — numbers that were written are read back.

  What is read need not be the number that was written: `Json.Number.readBack` is the document that
  stands for it afterwards. That is a number or nothing, and null for a double that is not finite. A
  natural number of 64 bits is read as what it is, and nothing else is read as one.

  Main statements: `Json.Number.text_spelled` (every number that has a text of its own is spelled),
  `Json.Number.readBack_eq_natural_iff`.
-/
import FuzzBundle.Proofs.LiteralSpelling

namespace FuzzBundle

/-! ## §1. Literals that are natural numbers -/

namespace Json.Literal

/-- More digits make no smaller number. -/
theorem le_ofDigitChars (cs : List Char) (n : Nat) : n ≤ Nat.ofDigitChars 10 cs n := by
  induction cs generalizing n with
  | nil => exact Nat.le_of_eq Nat.ofDigitChars_nil.symm
  | cons c cs ih =>
    have := ih (10 * n + (c.toNat - '0'.toNat))
    rw [Nat.ofDigitChars_cons]
    omega

/-- All digits are gathered exactly when their number fits. -/
theorem gather_eq_iff {cs : List Char} {s m : Nat} (fits : s ≤ significandMax) :
    gather s (cs.map Written.digitValue) = (m, [])
      ↔ m = Nat.ofDigitChars 10 cs s ∧ m ≤ significandMax := by
  induction cs generalizing s with
  | nil =>
    rw [List.map_nil, gather, Nat.ofDigitChars_nil, Prod.mk.injEq]
    constructor
    · rintro ⟨rfl, -⟩; exact ⟨rfl, fits⟩
    · rintro ⟨rfl, -⟩; exact ⟨rfl, rfl⟩
  | cons c cs ih =>
    have next : s * 10 + Written.digitValue c = 10 * s + (c.toNat - '0'.toNat) := by
      rw [Nat.mul_comm]; rfl
    rw [List.map_cons, gather, Nat.ofDigitChars_cons, next]
    split
    · next tooLarge =>
      have := le_ofDigitChars cs (10 * s + (c.toNat - '0'.toNat))
      constructor
      · intro h; cases h
      · rintro ⟨rfl, small⟩; omega
    · next small => exact ih (by omega)

/-- A literal is a natural number exactly when it shows no sign, no fraction and no exponent, and
its digits fit. -/
theorem number?_eq_natural_iff {l : Literal} {m : Nat} :
    l.number? = some (.natural m) ↔
      l.negative = false ∧ l.fraction = none ∧ l.exponent = none ∧ gather 0 l.whole = (m, []) := by
  have double : l.real?.map Number.real ≠ some (.natural m) := by
    cases l.real? <;> exact nofun
  constructor
  · intro h
    rw [number?] at h
    generalize gathered : gather 0 l.whole = result at h
    obtain ⟨magnitude, dropped⟩ := result
    dsimp only at h
    split at h
    · next bare =>
      obtain ⟨fraction, exponent, rfl⟩ := bare
      split at h
      · next plus =>
        cases h
        exact ⟨by simpa using plus, Option.isNone_iff_eq_none.1 fraction,
          Option.isNone_iff_eq_none.1 exponent, rfl⟩
      · split at h
        · cases h
        · exact absurd h double
    · exact absurd h double
  · intro h
    obtain ⟨plus, fraction, exponent, gathered⟩ := h
    rw [number?, gathered, plus, fraction, exponent]
    rfl

end Json.Literal

theorem Written.ofLiteral_eq_natural_iff {l : Json.Literal} {m : Nat} :
    Written.ofLiteral l = .number (.natural m) ↔ l.number? = some (.natural m) := by
  rw [ofLiteral]
  cases l.number? with
  | none => exact ⟨nofun, nofun⟩
  | some n => rw [Written.number.injEq, Option.some.injEq]

/-! ## §2. Numbers read back -/

namespace Json.Number

/-- The document that stands for a number once it was written and read. -/
def readBack (n : Number) : Written :=
  match Written.scanLiteral n.text with
  | some (l, _) => .ofLiteral l
  | none => .null

/-- Whether a number has no text of its own, as the doubles that are not finite. -/
def blank : Number → Bool
  | .real (.infinite _) | .real .nan => true
  | _ => false

/-- Every other number is spelled, and only a natural number without sign, fraction and exponent. -/
theorem text_spelled {n : Number} (h : n.blank = false) :
    ∃ v : Written.Spelling, v.WellFormed ∧ v.text = n.text
      ∧ (v.negative = false ∧ v.fraction = none ∧ v.exponent = none → ∃ k, n = .natural k) := by
  cases n with
  | natural k =>
    exact ⟨.ofNatural false k, Written.Spelling.wellFormed_ofNatural false k,
      Written.Spelling.text_ofNatural false k, fun _ => ⟨k, rfl⟩⟩
  | negative k =>
    exact ⟨.ofNatural true k, Written.Spelling.wellFormed_ofNatural true k,
      Written.Spelling.text_ofNatural true k, fun plain => nomatch plain.1⟩
  | real x =>
    cases x with
    | infinite minus => cases h
    | nan => cases h
    | finite minus significand exponent =>
      obtain ⟨v, wellFormed, real, spelled⟩ :=
        Written.realText_finite_spelled minus significand exponent
      refine ⟨v, wellFormed, spelled, fun plain => ?_⟩
      rcases real with fraction | power
      · exact absurd plain.2.1 fraction
      · exact absurd plain.2.2 power

theorem text_of_blank {n : Number} (h : n.blank = true) : n.text = ['n', 'u', 'l', 'l'] := by
  unfold blank at h
  split at h
  · rfl
  · rfl
  · cases h

theorem readBack_of_spelled {n : Number} {v : Written.Spelling} (h : v.WellFormed)
    (text : v.text = n.text) : n.readBack = .ofLiteral v.literal := by
  have read : Written.scanLiteral (v.text ++ []) = some (v.literal, []) :=
    Written.Spelling.scanLiteral_text h rfl
  rw [List.append_nil, text] at read
  rw [readBack, read]

theorem readBack_of_blank {n : Number} (h : n.blank = true) : n.readBack = .null := by
  rw [readBack, text_of_blank h]
  rfl

/-- What is read for any other number is a number or nothing. -/
theorem readBack_of_not_blank {n : Number} (h : n.blank = false) :
    (∃ x, n.readBack = .number x) ∨ n.readBack = .invalid := by
  obtain ⟨v, wellFormed, text, -⟩ := text_spelled h
  rw [readBack_of_spelled wellFormed text, Written.ofLiteral]
  split
  · next x _ => exact .inl ⟨x, rfl⟩
  · exact .inr rfl

/-- Exactly the natural numbers of 64 bits are read as natural numbers, and as what they are. -/
theorem readBack_eq_natural_iff {n : Number} {m : Nat} :
    n.readBack = .number (.natural m) ↔ n = .natural m ∧ m ≤ Literal.significandMax := by
  have gathered (k : Nat) : Literal.gather 0 ((decimalDigits k).map Written.digitValue) = (m, [])
      ↔ m = k ∧ m ≤ Literal.significandMax := by
    rw [Literal.gather_eq_iff (Nat.zero_le _), decimalDigits, Nat.ofDigitChars_ten_toDigits]
  have natural (k : Nat) : (natural k).readBack
      = .ofLiteral (Written.Spelling.ofNatural false k).literal :=
    readBack_of_spelled (Written.Spelling.wellFormed_ofNatural false k)
      (Written.Spelling.text_ofNatural false k)
  constructor
  · intro h
    cases none : n.blank with
    | true => rw [readBack_of_blank none] at h; cases h
    | false =>
      obtain ⟨v, wellFormed, text, plain⟩ := text_spelled none
      have number := h
      rw [readBack_of_spelled wellFormed text, Written.ofLiteral_eq_natural_iff,
        Literal.number?_eq_natural_iff] at number
      obtain ⟨plus, fraction, power, -⟩ := number
      obtain ⟨k, rfl⟩ := plain
        ⟨plus, Option.map_eq_none_iff.1 fraction, Option.map_eq_none_iff.1 power⟩
      rw [natural, Written.ofLiteral_eq_natural_iff, Literal.number?_eq_natural_iff] at h
      obtain ⟨rfl, fits⟩ := (gathered k).1 h.2.2.2
      exact ⟨rfl, fits⟩
  · intro h
    obtain ⟨rfl, fits⟩ := h
    rw [natural, Written.ofLiteral_eq_natural_iff, Literal.number?_eq_natural_iff]
    exact ⟨rfl, rfl, rfl, (gathered m).2 ⟨rfl, fits⟩⟩

end Json.Number

end FuzzBundle
