/-
  FuzzBundle.Proofs.LiteralSpelling — numbers are written as literals.

  A number is written as the literal of a `Spelling`, whose digits are characters. A natural number
  is spelled by its digits. A double shows that it is one, with a fraction or an exponent, so it is
  never read as a natural number; a double that is not finite is written as null.

  Main statements: `Spelling.scanLiteral_text`, `write_spelled`, `realText_finite_spelled`.
-/
import FuzzBundle.Proofs.LiteralGrammar

namespace FuzzBundle

namespace Written

/-! ## §1. Spellings -/

/-- A literal as it is spelled: its digits are characters. -/
structure Spelling where
  negative : Bool
  whole : List Char
  fraction : Option (List Char)
  exponent : Option (Bool × List Char)

namespace Spelling

/-- The point and the digits after it. -/
def fractionText : Option (List Char) → List Char
  | none => []
  | some digits => '.' :: digits

/-- The letter of an exponent, its sign and its digits. -/
def exponentText : Option (Bool × List Char) → List Char
  | none => []
  | some (negative, digits) => 'e' :: (if negative then '-' else '+') :: digits

/-- The text without the sign. -/
def unsignedText (v : Spelling) : List Char :=
  v.whole ++ (fractionText v.fraction ++ exponentText v.exponent)

/-- The text of a spelling. -/
def text (v : Spelling) : List Char :=
  if v.negative then '-' :: v.unsignedText else v.unsignedText

/-- The literal that is spelled. -/
def literal (v : Spelling) : Json.Literal where
  negative := v.negative
  whole := v.whole.map digitValue
  fraction := v.fraction.map (List.map digitValue)
  exponent := v.exponent.map fun e => (e.1, e.2.map digitValue)

/-- There are digits wherever they belong, and no leading zero. -/
structure WellFormed (v : Spelling) : Prop where
  whole : IsDigits v.whole
  leading : v.whole.head? = some '0' → v.whole = ['0']
  fraction : ∀ digits, v.fraction = some digits → IsDigits digits
  exponent : ∀ e, v.exponent = some e → IsDigits e.2

variable {v : Spelling} {rest : List Char}

theorem fractionText_spells {fraction : Option (List Char)}
    (h : ∀ digits, fraction = some digits → IsDigits digits) :
    SpellsFraction (fractionText fraction) (fraction.map (List.map digitValue)) := by
  cases fraction with
  | none => exact .none
  | some digits => exact .some (h digits rfl)

theorem exponentText_spells {exponent : Option (Bool × List Char)}
    (h : ∀ e, exponent = some e → IsDigits e.2) :
    SpellsExponent (exponentText exponent) (exponent.map fun e => (e.1, e.2.map digitValue)) := by
  cases exponent with
  | none => exact .none
  | some e =>
    obtain ⟨negative, digits⟩ := e
    cases negative with
    | true => exact .some (.inl rfl) .minus (h _ rfl)
    | false => exact .some (.inl rfl) .plus (h _ rfl)

theorem unsignedText_spells (h : v.WellFormed) :
    SpellsUnsigned v.negative v.unsignedText v.literal :=
  .number h.whole h.leading (fractionText_spells h.fraction) (exponentText_spells h.exponent)

/-- The text of a spelling spells its literal. -/
theorem text_spells (h : v.WellFormed) : SpellsLiteral v.text v.literal := by
  have unsigned := unsignedText_spells h
  unfold text
  cases sign : v.negative with
  | true =>
    rw [sign] at unsigned
    exact .negative unsigned
  | false =>
    rw [sign] at unsigned
    exact .plain unsigned

/-- A literal is read where its spelling is. -/
theorem scanLiteral_text (h : v.WellFormed) (ends : EndsNumber rest) :
    scanLiteral (v.text ++ rest) = some (v.literal, rest) :=
  scanLiteral_spelled (text_spells h) ends

end Spelling

/-! ## §2. Natural numbers -/

/-- The digits of a positive number begin with no zero. -/
theorem decimalDigits_head {n : Nat} (h : n ≠ 0) : (decimalDigits n).head? ≠ some '0' := by
  induction n using Nat.strongRecOn with
  | _ n ih =>
    rcases Nat.lt_or_ge n 10 with small | large
    · have digit : ∀ m : Fin 10, m.val ≠ 0 → Nat.digitChar m.val ≠ '0' := by decide
      rw [decimalDigits, Nat.toDigits_of_lt_base small]
      intro zero
      exact digit ⟨n, small⟩ h (Option.some.inj zero)
    · -- the first digit is that of a tenth
      have first := ih (n / 10) (by omega) (by omega)
      obtain ⟨c, cs, spelled⟩ := List.exists_cons_of_ne_nil (isDigits_decimalDigits (n / 10)).1
      rw [decimalDigits, Nat.toDigits_of_base_le (by decide) large, ← decimalDigits, spelled]
      rw [spelled] at first
      exact first

/-- A natural number is spelled by its digits. -/
def Spelling.ofNatural (negative : Bool) (n : Nat) : Spelling :=
  ⟨negative, decimalDigits n, none, none⟩

theorem Spelling.wellFormed_ofNatural (negative : Bool) (n : Nat) :
    (Spelling.ofNatural negative n).WellFormed where
  whole := isDigits_decimalDigits n
  leading zero := by
    by_cases h : n = 0
    · subst h; rfl
    · exact absurd zero (decimalDigits_head h)
  fraction _ h := by cases h
  exponent _ h := by cases h

theorem Spelling.text_ofNatural (negative : Bool) (n : Nat) :
    (Spelling.ofNatural negative n).text
      = if negative then '-' :: decimalDigits n else decimalDigits n := by
  have unsigned : (Spelling.ofNatural negative n).unsignedText = decimalDigits n :=
    List.append_nil _
  rw [text, unsigned]
  rfl

/-! ## §3. Doubles -/

/-- A spelling that shows that its number is a double. -/
def Spelling.IsReal (v : Spelling) : Prop := v.fraction ≠ none ∨ v.exponent ≠ none

theorem all_isDigit_zeros (n : Nat) : (List.replicate n '0').all Char.isDigit = true :=
  List.all_eq_true.2 fun _ hc => by rw [List.eq_of_mem_replicate hc]; rfl

theorem IsDigits.append {cs ds : List Char} (h : IsDigits cs) (hd : ds.all Char.isDigit = true) :
    IsDigits (cs ++ ds) :=
  ⟨List.append_ne_nil_of_left_ne_nil h.1 ds, by rw [List.all_append, h.2, hd]; rfl⟩

/-- Digits with a point between them. -/
def Spelling.pointed (whole fraction : List Char) : Spelling := ⟨false, whole, some fraction, none⟩

theorem Spelling.wellFormed_pointed {whole fraction : List Char} (hw : IsDigits whole)
    (leading : whole.head? = some '0' → whole = ['0']) (hf : IsDigits fraction) :
    (Spelling.pointed whole fraction).WellFormed where
  whole := hw
  leading := leading
  fraction digits h := by cases h; exact hf
  exponent _ h := by cases h

theorem Spelling.text_pointed (whole fraction : List Char) :
    (Spelling.pointed whole fraction).text = whole ++ '.' :: fraction := by
  show whole ++ ('.' :: fraction ++ []) = _
  rw [List.append_nil]

section Reals

variable {digits : List Char} (isDigits : IsDigits digits) (first : digits.head? ≠ some '0')

include isDigits first

/-- Digits with a point, filled up with zeros, are spelled as a fraction. -/
theorem positional_spelled (point : Int) :
    ∃ v : Spelling, v.WellFormed ∧ v.IsReal ∧ v.negative = false
      ∧ v.text = positional digits point := by
  have pointed (whole fraction : List Char) (hw : IsDigits whole)
      (leading : whole.head? = some '0' → whole = ['0']) (hf : IsDigits fraction)
      (text : whole ++ '.' :: fraction = positional digits point) :
      ∃ v : Spelling, v.WellFormed ∧ v.IsReal ∧ v.negative = false
        ∧ v.text = positional digits point :=
    ⟨.pointed whole fraction, Spelling.wellFormed_pointed hw leading hf, .inl nofun, rfl,
      (Spelling.text_pointed whole fraction).trans text⟩
  by_cases small : point ≤ 0
  · -- only zeros stand before the digits
    have zeros := all_isDigit_zeros (-point).toNat
    refine pointed ['0'] (List.replicate (-point).toNat '0' ++ digits) ⟨nofun, rfl⟩
      (fun _ => rfl) ?_ ?_
    · exact ⟨List.append_ne_nil_of_right_ne_nil _ isDigits.1, by
        rw [List.all_append, zeros, isDigits.2]; rfl⟩
    · rw [positional, if_pos small]
      rfl
  · by_cases large : (digits.length : Int) ≤ point
    · -- zeros fill up the places to the point
      have whole := isDigits.append (all_isDigit_zeros (point.toNat - digits.length))
      refine pointed _ ['0'] whole ?_ ⟨nofun, rfl⟩ ?_
      · intro zero
        rw [List.head?_append_of_ne_nil _ isDigits.1] at zero
        exact absurd zero first
      · rw [positional, if_neg small, if_pos large]
    · -- the point stands between two digits
      have apart : digits.take point.toNat ++ digits.drop point.toNat = digits :=
        List.take_append_drop _ _
      have all : (digits.take point.toNat ++ digits.drop point.toNat).all Char.isDigit = true := by
        rw [apart]; exact isDigits.2
      rw [List.all_append, Bool.and_eq_true] at all
      have before : digits.take point.toNat ≠ [] := by
        intro nothing
        rcases List.take_eq_nil_iff.1 nothing with none | none
        · omega
        · exact isDigits.1 none
      have after : digits.drop point.toNat ≠ [] := by
        intro nothing
        have := List.drop_eq_nil_iff.1 nothing
        omega
      refine pointed _ _ ⟨before, all.1⟩ ?_ ⟨after, all.2⟩ ?_
      · intro zero
        rw [← apart, List.head?_append_of_ne_nil _ before] at first
        exact absurd zero first
      · rw [positional, if_neg small, if_neg large]

/-- Digits with an exponent are spelled as such. -/
theorem scientific_spelled (point : Int) :
    ∃ v : Spelling, v.WellFormed ∧ v.IsReal ∧ v.negative = false
      ∧ v.text = scientific digits point := by
  obtain ⟨c, cs, spelled⟩ := List.exists_cons_of_ne_nil isDigits.1
  have all := isDigits.2
  rw [spelled, List.all_cons, Bool.and_eq_true] at all
  rw [spelled] at first
  have power : ∀ e, some (decide (point - 1 < 0), decimalDigits (point - 1).natAbs) = some e →
      IsDigits e.2 := by
    intro e h
    cases h
    exact isDigits_decimalDigits _
  have leading : [c].head? = some '0' → [c] = ['0'] := fun zero => absurd zero first
  cases cs with
  | nil =>
    refine ⟨⟨false, [c], none, some (decide (point - 1 < 0), decimalDigits (point - 1).natAbs)⟩,
      ⟨⟨nofun, by simpa using all.1⟩, leading, nofun, power⟩, .inr nofun, rfl, ?_⟩
    rw [spelled]
    simp [Spelling.text, Spelling.unsignedText, Spelling.fractionText, Spelling.exponentText,
      scientific]
  | cons d ds =>
    refine ⟨⟨false, [c], some (d :: ds),
        some (decide (point - 1 < 0), decimalDigits (point - 1).natAbs)⟩,
      ⟨⟨nofun, by simpa using all.1⟩, leading, ?_, power⟩, .inl nofun, rfl, ?_⟩
    · intro more h
      cases h
      exact ⟨nofun, all.2⟩
    · rw [spelled]
      simp [Spelling.text, Spelling.unsignedText, Spelling.fractionText, Spelling.exponentText,
        scientific]

end Reals

/-- A decimal other than zero is spelled as a double, whatever the format. -/
theorem write_spelled (f : NumberFormat) {d : Decimal} (h : d.digits ≠ 0) :
    ∃ v : Spelling, v.WellFormed ∧ v.IsReal ∧ v.negative = false ∧ v.text = f.write d := by
  have either : f.write d = positional _ _ ∨ f.write d = scientific _ _ := ite_eq_or_eq _ _ _
  rcases either with layout | layout
  · rw [layout]
    exact positional_spelled (isDigits_decimalDigits _) (decimalDigits_head h) _
  · rw [layout]
    exact scientific_spelled (isDigits_decimalDigits _) (decimalDigits_head h) _

end Written

/-! ## §4. Shortest decimals -/

namespace Decimal

theorem trimmed_digits_ne_zero (fuel : Nat) {d : Decimal} (h : d.digits ≠ 0) :
    (trimmed fuel d).digits ≠ 0 := by
  induction fuel generalizing d with
  | zero => exact h
  | succ fuel ih =>
    rw [trimmed]
    split
    · next ends => exact ih (by show d.digits / 10 ≠ 0; omega)
    · exact h

/-- A decimal that reads back as a positive double is not zero. -/
theorem shortest_digits_ne_zero {tie : Tie} {significand : Nat} {exponent : Int} {d : Decimal}
    (positive : significand ≠ 0) (h : shortest tie significand exponent = some d) :
    d.digits ≠ 0 := by
  obtain ⟨found, search, rfl⟩ := Option.map_eq_some_iff.1 h
  apply trimmed_digits_ne_zero
  intro zero
  have back := search_readsBack search
  rw [zero] at back
  have same : Binary64.zero false = .finite false significand exponent := back
  cases same
  exact positive rfl

end Decimal

namespace Written

/-- Spelling a double with its sign. -/
theorem Spelling.signed {v : Spelling} (h : v.WellFormed) (real : v.IsReal)
    (plus : v.negative = false) (minus : Bool) :
    ∃ w : Spelling, w.WellFormed ∧ w.IsReal ∧ w.text = if minus then '-' :: v.text else v.text := by
  refine ⟨{ v with negative := minus }, ⟨h.whole, h.leading, h.fraction, h.exponent⟩, real, ?_⟩
  have unsigned : v.text = v.unsignedText := by rw [text, plus]; rfl
  rw [unsigned]
  rfl

/-- The text of a double is null, or it is spelled with a fraction or an exponent. -/
theorem realText_finite_spelled (minus : Bool) (significand : Nat) (exponent : Int) :
    ∃ v : Spelling, v.WellFormed ∧ v.IsReal
      ∧ v.text = Json.Number.realText (.finite minus significand exponent) := by
  have zero : ∃ v : Spelling, v.WellFormed ∧ v.IsReal ∧ v.negative = false
      ∧ v.text = ['0', '.', '0'] :=
    ⟨.pointed ['0'] ['0'], Spelling.wellFormed_pointed ⟨nofun, rfl⟩ (fun _ => rfl) ⟨nofun, rfl⟩,
      .inl nofun, rfl, rfl⟩
  obtain ⟨magnitude, text, v, wellFormed, real, plus, spelled⟩ : ∃ magnitude,
      Json.Number.realText (.finite minus significand exponent)
        = (if minus then '-' :: magnitude else magnitude)
      ∧ ∃ v : Spelling, v.WellFormed ∧ v.IsReal ∧ v.negative = false ∧ v.text = magnitude := by
    refine ⟨_, rfl, ?_⟩
    split
    · exact zero
    · next positive =>
      split
      · next d shortest =>
        exact write_spelled Json.Number.format (Decimal.shortest_digits_ne_zero positive shortest)
      · exact zero
  rw [text, ← spelled]
  exact Spelling.signed wellFormed real plus minus

end Written

end FuzzBundle
