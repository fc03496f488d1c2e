/-
  FuzzBundle.Proofs.IdenticalCode — a code that stands byte for byte among the candidates for it.

  The distance of two codes fills the shorter one up with zero bytes, so it is zero exactly if one
  code is the other one with zero bytes after it (`distance_eq_zero_iff`). A code that is there byte
  for byte is therefore at distance zero, but it need not be the only one: a candidate that has some
  zero bytes more or less is as near, if its length counts at all, and of several nearest ones the
  earliest is taken.

  So the match is the earliest candidate that is the target up to zero bytes at the end. It is the
  target byte for byte exactly if every candidate that merely resembles it comes after one that is
  identical (`nearest_of_identical`). This is so whatever lengths count, as long as that of the
  target does, and the length of the target counts for every tolerance that is not negative: for an
  exact number without any bound, and for a double if lengths have 64 bits.

  Main statements: `distance_eq_zero_iff`, `nearest_of_identical`, `bestMatch_of_identical`.
-/
import Mathlib.Algebra.Order.Ring.Rat
import FuzzBundle.Proofs.Nearest

namespace FuzzBundle

/-! ## §1. Codes at distance zero -/

namespace Bytecode

theorem bitCount_eq_zero_iff (b : UInt8) : bitCount b = 0 ↔ b = 0 := by
  constructor
  · intro unset
    rw [bitCount, List.countP_eq_zero] at unset
    refine UInt8.toNat_inj.1 (Nat.eq_of_testBit_eq fun i => ?_)
    rw [UInt8.toNat_zero, Nat.zero_testBit]
    by_cases low : i < 8
    · simpa using unset i (List.mem_range.2 low)
    · -- a byte has no bits beyond the eighth
      refine Nat.testBit_lt_two_pow (Nat.lt_of_lt_of_le b.toNat_lt ?_)
      exact Nat.pow_le_pow_right (by decide) (Nat.not_lt.1 low)
  · intro zero
    subst zero
    decide

/-- One code is the other one with zero bytes after it. -/
def EqualUpToZeros (a b : List UInt8) : Prop :=
  ∃ n, a = b ++ List.replicate n 0 ∨ b = a ++ List.replicate n 0

theorem EqualUpToZeros.refl (a : List UInt8) : EqualUpToZeros a a :=
  ⟨0, .inl (List.append_nil a).symm⟩

theorem EqualUpToZeros.symm {a b : List UInt8} (h : EqualUpToZeros a b) : EqualUpToZeros b a := by
  obtain ⟨n, either⟩ := h
  exact ⟨n, either.symm⟩

theorem equalUpToZeros_nil_iff (b : List UInt8) : EqualUpToZeros [] b ↔ ∀ x ∈ b, x = 0 := by
  unfold EqualUpToZeros
  constructor
  · intro h
    obtain ⟨n, shorter | longer⟩ := h
    · rw [(List.append_eq_nil_iff.1 shorter.symm).1]
      exact nofun
    · rw [longer]
      exact fun x member => List.eq_of_mem_replicate member
  · intro zeros
    exact ⟨b.length, .inr (List.eq_replicate_iff.2 ⟨rfl, zeros⟩)⟩

theorem equalUpToZeros_cons_iff (x y : UInt8) (a b : List UInt8) :
    EqualUpToZeros (x :: a) (y :: b) ↔ x = y ∧ EqualUpToZeros a b := by
  unfold EqualUpToZeros
  simp only [List.cons_append, List.cons.injEq]
  constructor
  · intro h
    obtain ⟨n, ⟨same, rest⟩ | ⟨same, rest⟩⟩ := h
    · exact ⟨same, n, .inl rest⟩
    · exact ⟨same.symm, n, .inr rest⟩
  · intro h
    obtain ⟨same, n, rest | rest⟩ := h
    · exact ⟨n, .inl ⟨same, rest⟩⟩
    · exact ⟨n, .inr ⟨same.symm, rest⟩⟩

/-- A code is at distance zero from the empty one if it has no bit. -/
theorem distance_nil_left_eq_zero_iff (code : List UInt8) :
    distance [] code = 0 ↔ ∀ x ∈ code, x = 0 := by
  show (code.map bitCount).sum = 0 ↔ _
  rw [List.sum_eq_zero_iff_forall_eq_nat, List.forall_mem_map]
  exact forall₂_congr fun x _ => bitCount_eq_zero_iff x

/-- **Codes are at distance zero exactly if they are equal up to zero bytes at the end.** -/
theorem distance_eq_zero_iff (a b : List UInt8) : distance a b = 0 ↔ EqualUpToZeros a b := by
  -- by the recursion of the distance, which ends where one of the codes does
  induction a generalizing b with
  | nil => rw [distance_nil_left_eq_zero_iff, equalUpToZeros_nil_iff]
  | cons x a ih =>
    cases b with
    | nil =>
      have turned : EqualUpToZeros (x :: a) [] ↔ EqualUpToZeros [] (x :: a) := ⟨.symm, .symm⟩
      rw [turned, equalUpToZeros_nil_iff]
      exact distance_nil_left_eq_zero_iff (x :: a)
    | cons y b =>
      have bits : bitCount (x ^^^ y) = 0 ↔ x = y := by
        rw [bitCount_eq_zero_iff, UInt8.xor_eq_zero_iff]
      show bitCount (x ^^^ y) + distance a b = 0 ↔ _
      rw [Nat.add_eq_zero_iff, bits, ih, equalUpToZeros_cons_iff]

/-! ## §2. The earliest of the resembling candidates -/

/-- The candidate at a place is the first one whose code is the target up to zero bytes. -/
structure FirstUpToZeros (target : List UInt8) (counted : List Candidate) (i : Nat)
    (c : Candidate) : Prop where
  here : counted[i]? = some c
  equal : EqualUpToZeros target c.code
  first : ∀ j b, j < i → counted[j]? = some b → ¬ EqualUpToZeros target b.code

/-- Every candidate that is the target only up to zero bytes comes after an identical one. -/
def IdenticalFirst (target : List UInt8) (counted : List Candidate) : Prop :=
  ∀ (j : Nat) (b : Candidate), counted[j]? = some b →
    EqualUpToZeros target b.code → b.code ≠ target →
      ∃ (k : Nat) (a : Candidate), k < j ∧ counted[k]? = some a ∧ a.code = target

/-- What is found is, at distance zero, the first of the candidates that are the target up to zero
bytes. It is identical to the target exactly if identical candidates come first. -/
def FindsUpToZeros (target : List UInt8) (counted : List Candidate)
    (found? : Option (Candidate × Nat)) : Prop :=
  ∃ i c, found? = some (c, 0) ∧ FirstUpToZeros target counted i c
    ∧ (c.code = target ↔ IdenticalFirst target counted)

variable {target : List UInt8} {counted : List Candidate}

theorem FirstUpToZeros.code_eq_iff {i : Nat} {c : Candidate}
    (h : FirstUpToZeros target counted i c) :
    c.code = target ↔ IdenticalFirst target counted := by
  constructor
  · intro identical j b there resembles other
    -- the first of all is identical, so what only resembles the target comes later
    refine ⟨i, c, ?_, h.here, identical⟩
    rcases Nat.lt_trichotomy i j with less | same | greater
    · exact less
    · subst same
      rw [h.here] at there
      cases there
      exact absurd identical other
    · exact absurd resembles (h.first j b greater there)
  · intro identicalFirst
    by_cases identical : c.code = target
    · exact identical
    · obtain ⟨k, a, less, there, same⟩ := identicalFirst i c h.here h.equal identical
      exact absurd (same ▸ EqualUpToZeros.refl target) (h.first k a less there)

/-- **Where an identical candidate counts, the first of the resembling ones is found.** -/
theorem nearest_of_identical (identical : ∃ a ∈ counted, a.code = target) :
    FindsUpToZeros target counted (counted.foldl (better target) none) := by
  obtain ⟨a, member, same⟩ := identical
  have zero : distanceTo target a = 0 :=
    (distance_eq_zero_iff target a.code).2 (same ▸ EqualUpToZeros.refl target)
  rw [foldl_better_eq_scan]
  cases found : scan (distanceTo target) counted with
  | none =>
    rw [(scan_eq_none_iff _ counted).1 found] at member
    cases member
  | some c =>
    obtain ⟨i, least⟩ := (scan_eq_some_iff _ counted c).1 found
    have near : distanceTo target c = 0 := Nat.le_zero.1 (zero ▸ least.least a member)
    have first : FirstUpToZeros target counted i c := by
      refine ⟨least.here, (distance_eq_zero_iff target c.code).1 near, ?_⟩
      intro j b earlier there resembles
      -- a resembling candidate before it would be lighter than zero
      have heavier := least.first j b earlier there
      rw [near, show distanceTo target b = 0 from (distance_eq_zero_iff _ _).2 resembles] at heavier
      exact Nat.lt_irrefl 0 heavier
    refine ⟨i, c, ?_, first, first.code_eq_iff⟩
    rw [Option.map_some, near]

/-! ## §3. Lengths that count -/

/-- The nearest of the candidates whose length counts, and its distance. -/
def nearestWithin (counts : Nat → Bool) (target : List UInt8) (candidates : List Candidate) :
    Option (Candidate × Nat) :=
  (candidates.filter fun c => counts c.code.length).foldl (better target) none

/-- The best match is the nearest of the candidates that the length gate lets through. -/
theorem bestMatch_eq_nearestWithin (target : List UInt8) (candidates : List Candidate)
    (tolerance : Binary64) :
    bestMatch target candidates tolerance
      = nearestWithin (withinLengthGate target.length · tolerance) target candidates := rfl

theorem nearestWithin_of_identical {counts : Nat → Bool} {candidates : List Candidate}
    (identical : ∃ a ∈ candidates, a.code = target) (own : counts target.length = true) :
    FindsUpToZeros target (candidates.filter fun c => counts c.code.length)
      (nearestWithin counts target candidates) := by
  obtain ⟨a, member, same⟩ := identical
  refine nearest_of_identical ⟨a, List.mem_filter.2 ⟨member, ?_⟩, same⟩
  rw [same]
  exact own

/-- Whether a length differs from another one by no more than a fraction of that, by exact
arithmetic. -/
def withinFraction (tolerance : ℚ) (target candidate : Nat) : Bool :=
  decide (((target - candidate) + (candidate - target) : Nat) ≤ tolerance * target)

theorem withinFraction_self {tolerance : ℚ} (h : 0 ≤ tolerance) (n : Nat) :
    withinFraction tolerance n n = true := by
  refine decide_eq_true ?_
  rw [Nat.sub_self, Nat.cast_zero]
  exact Rat.mul_nonneg h (Rat.natCast_nonneg)

end Bytecode

/-! ## §4. Doubles that are not negative -/

namespace Binary64

/-- A finite number that is not below zero. -/
def NonNegative : Binary64 → Prop
  | .finite negative significand _ => negative = true → significand = 0
  | _ => False

instance : DecidablePred NonNegative := fun x => by
  unfold NonNegative
  split <;> infer_instance

theorem scaled_zero (negative : Bool) (exponent unit : Int) :
    scaled negative 0 exponent unit = 0 := by
  unfold scaled
  cases negative <;> simp

theorem zero_le_scaled (significand : Nat) (exponent unit : Int) :
    0 ≤ scaled false significand exponent unit := Int.natCast_nonneg _

/-- A ratio that is not zero is rounded to a significand with an exponent, which is at most one more
than the exponent it was looked for at, or lies beyond all doubles. -/
theorem ofRatio_of_ne_zero (negative : Bool) {num : Nat} (den : Nat) (h : num ≠ 0) :
    ∃ significand exponent, exponent ≤ exponentFor num den + 1
      ∧ ofRatio negative num den
        = if 971 < exponent then .infinite negative else .finite negative significand exponent := by
  unfold ofRatio
  rw [if_neg h]
  dsimp only
  split
  · exact ⟨Nat.pow 2 52, exponentFor num den + 1, by omega, rfl⟩
  · exact ⟨_, exponentFor num den, by omega, rfl⟩

/-- A ratio that is not negative is rounded to no less than zero. -/
theorem zero_le_ofRatio {negative : Bool} {num den : Nat} (h : negative = true → num = 0) :
    (zero false).le (ofRatio negative num den) = true := by
  by_cases none : num = 0
  · rw [ofRatio, if_pos none]
    refine decide_eq_true ?_
    rw [scaled_zero, scaled_zero]
  · have plus : negative = false := by
      cases negative with
      | true => exact absurd (h rfl) none
      | false => rfl
    obtain ⟨significand, exponent, -, rounded⟩ := ofRatio_of_ne_zero negative den none
    rw [rounded, plus]
    split
    · rfl
    · refine decide_eq_true ?_
      rw [scaled_zero]
      exact zero_le_scaled _ _ _

/-- A number of 64 bits is a finite double. -/
theorem exists_ofNat {n : Nat} (h : n < 2 ^ 64) :
    ∃ significand exponent, ofNat n = .finite false significand exponent := by
  by_cases none : n = 0
  · exact ⟨0, -1074, by rw [ofNat, ofRatio, if_pos none, zero]⟩
  · have bits : n.log2 < 64 := (Nat.log2_lt none).2 h
    have small : exponentFor n 1 ≤ 12 := by
      have one : Nat.log2 1 = 0 := by decide
      unfold exponentFor
      rw [one]
      dsimp only
      split <;> omega
    obtain ⟨significand, exponent, le, rounded⟩ := ofRatio_of_ne_zero false 1 none
    rw [ofNat, rounded, if_neg (by omega)]
    exact ⟨significand, exponent, rfl⟩

end Binary64

namespace Bytecode

/-- The length of a code counts for itself. -/
theorem withinLengthGate_self {tolerance : Binary64} (h : tolerance.NonNegative) {n : Nat}
    (small : n < 2 ^ 64) : withinLengthGate n n tolerance = true := by
  cases tolerance with
  | infinite negative => exact h.elim
  | nan => exact h.elim
  | finite negative significand exponent =>
    obtain ⟨m, e, double⟩ := Binary64.exists_ofNat small
    show (Binary64.ofNat ((n - n) + (n - n))).le (Binary64.mul _ (Binary64.ofNat n)) = true
    rw [Nat.sub_self, double]
    refine Binary64.zero_le_ofRatio fun minus => ?_
    -- a negative significand is zero, and so is the product
    have none : significand = 0 := h (by cases negative <;> simp_all)
    rw [none, Nat.zero_mul, Nat.zero_mul]

/-! ## §5. The best match -/

/-- **If a candidate is identical to the target, the earliest one that is the target up to zero
bytes at the end is found**, at distance zero. It is identical itself exactly if no candidate that
only resembles the target comes before all identical ones. The tolerance is any number that is not
negative, taken exactly, or a double as it is computed with. -/
theorem bestMatch_of_identical (target : List UInt8) (candidates : List Candidate)
    (identical : ∃ a ∈ candidates, a.code = target) :
    (∀ tolerance : ℚ, 0 ≤ tolerance →
      FindsUpToZeros target
        (candidates.filter fun c => withinFraction tolerance target.length c.code.length)
        (nearestWithin (withinFraction tolerance target.length) target candidates))
    ∧ ∀ tolerance : Binary64, tolerance.NonNegative → target.length < 2 ^ 64 →
      FindsUpToZeros target (gated target candidates tolerance)
        (bestMatch target candidates tolerance) := by
  constructor
  · intro tolerance nonNegative
    exact nearestWithin_of_identical identical (withinFraction_self nonNegative _)
  · intro tolerance nonNegative small
    rw [bestMatch_eq_nearestWithin]
    exact nearestWithin_of_identical identical (withinLengthGate_self nonNegative small)

/-- Code of ten bytes. -/
def tokenCode : List UInt8 := [0x60, 0x80, 0x60, 0x40, 0x52, 0x60, 0x00, 0x60, 0x00, 0x55]

/-- The same code with a zero byte after it, and then the code itself. -/
def tokenCandidates : List Candidate := [⟨"0xa1", tokenCode ++ [0]⟩, ⟨"0xa2", tokenCode⟩]

/-- A tenth of the length is one byte, so that the longer code counts. -/
theorem bestMatch_of_identical_token :
    (∃ a ∈ tokenCandidates, a.code = tokenCode)
    ∧ (Binary64.ofDecimal false 1 (-1)).NonNegative ∧ tokenCode.length < 2 ^ 64
    ∧ FindsUpToZeros tokenCode
        (gated tokenCode tokenCandidates (.ofDecimal false 1 (-1)))
        (bestMatch tokenCode tokenCandidates (.ofDecimal false 1 (-1)))
    ∧ (0 : ℚ) ≤ 1 / 10
    ∧ FindsUpToZeros tokenCode
        (tokenCandidates.filter fun c => withinFraction (1 / 10) tokenCode.length c.code.length)
        (nearestWithin (withinFraction (1 / 10) tokenCode.length) tokenCode tokenCandidates) := by
  have identical : ∃ a ∈ tokenCandidates, a.code = tokenCode :=
    ⟨⟨"0xa2", tokenCode⟩, by decide, rfl⟩
  have nonNegative : (Binary64.ofDecimal false 1 (-1)).NonNegative := by decide +kernel
  have tenth : (0 : ℚ) ≤ 1 / 10 := by decide +kernel
  obtain ⟨exact, double⟩ := bestMatch_of_identical tokenCode tokenCandidates identical
  exact ⟨identical, nonNegative, by decide, double _ nonNegative (by decide), tenth,
    exact _ tenth⟩

/-- **An identical candidate is not always the match**, whether the tolerance is taken exactly or as
a double. A candidate with one zero byte more that comes before it is as near. -/
theorem identical_not_always_found :
    (¬ ∀ (target : List UInt8) (candidates : List Candidate) (tolerance : ℚ), 0 ≤ tolerance →
      (∃ a ∈ candidates, a.code = target) →
        ∃ c d, nearestWithin (withinFraction tolerance target.length) target candidates
          = some (c, d) ∧ c.code = target)
    ∧ ¬ ∀ (target : List UInt8) (candidates : List Candidate) (tolerance : Binary64),
      tolerance.NonNegative → (∃ a ∈ candidates, a.code = target) →
        ∃ c d, bestMatch target candidates tolerance = some (c, d) ∧ c.code = target := by
  have identical : ∃ a ∈ tokenCandidates, a.code = tokenCode :=
    ⟨⟨"0xa2", tokenCode⟩, by decide, rfl⟩
  constructor
  · intro always
    obtain ⟨c, d, found, same⟩ := always tokenCode tokenCandidates (1 / 10) (by decide +kernel)
      identical
    have other : nearestWithin (withinFraction (1 / 10) tokenCode.length) tokenCode tokenCandidates
        = some (⟨"0xa1", tokenCode ++ [0]⟩, 0) := by decide +kernel
    rw [other] at found
    cases found
    cases same
  · intro always
    obtain ⟨c, d, found, same⟩ := always tokenCode tokenCandidates (.ofDecimal false 1 (-1))
      (by decide +kernel) identical
    have other : bestMatch tokenCode tokenCandidates (.ofDecimal false 1 (-1))
        = some (⟨"0xa1", tokenCode ++ [0]⟩, 0) := by decide +kernel
    rw [other] at found
    cases found
    cases same

end Bytecode

end FuzzBundle
