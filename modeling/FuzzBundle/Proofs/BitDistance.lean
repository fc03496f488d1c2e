/-
  FuzzBundle.Proofs.BitDistance — the distance of two codes as a number of bits.

  A code is read as an endless row of bits, eight for each byte and zeros after its end (`bitAt`).
  Whichever of two codes ends first, the distance takes one byte off each of them, a zero byte where
  there is none (`distance_step`). So it counts the places at which the two rows differ
  (`encard_differing`), and what holds of such sets of places holds of the distance: it does not
  depend on the order of the codes, it obeys the law of the triangle, and it is zero only between
  codes that are equal without the zero bytes at their ends.

  Main statement: `distance_pseudometric`.
-/
import Mathlib.Data.List.DropRight
import Mathlib.Data.Set.Card
import FuzzBundle.Proofs.IdenticalCode

namespace FuzzBundle.Bytecode

/-! ## §1. Codes as rows of bits -/

/-- The byte at a place of a code, and zero after its end. -/
def byteAt (code : List UInt8) (i : Nat) : UInt8 := code.getD i 0

/-- The bit at a place of a code, eight for each byte, and unset after its end. -/
def bitAt (code : List UInt8) (k : Nat) : Bool := (byteAt code (k / 8)).toNat.testBit (k % 8)

/-- Whether two codes differ in the bit at a place. -/
def differsAt (a b : List UInt8) (k : Nat) : Bool := bitAt a k != bitAt b k

/-- The places of the bits in which two codes differ. -/
def differing (a b : List UInt8) : Set Nat := {k | bitAt a k ≠ bitAt b k}

theorem mem_differing_iff {a b : List UInt8} {k : Nat} :
    k ∈ differing a b ↔ differsAt a b k = true := by
  unfold differsAt
  exact bne_iff_ne.symm

theorem byteAt_zero (code : List UInt8) : byteAt code 0 = code.headD 0 := by
  cases code <;> rfl

theorem byteAt_succ (code : List UInt8) (i : Nat) : byteAt code (i + 1) = byteAt code.tail i := by
  cases code <;> rfl

theorem byteAt_of_le {code : List UInt8} {i : Nat} (h : code.length ≤ i) : byteAt code i = 0 := by
  unfold byteAt
  rw [List.getD_eq_getElem?_getD, List.getElem?_eq_none h, Option.getD_none]

/-- The first eight bits are those of the first byte. -/
theorem bitAt_of_lt (code : List UInt8) {k : Nat} (h : k < 8) :
    bitAt code k = (code.headD 0).toNat.testBit k := by
  unfold bitAt
  rw [Nat.div_eq_of_lt h, Nat.mod_eq_of_lt h, byteAt_zero]

/-- The bits after the first eight are those of the other bytes. -/
theorem bitAt_add (code : List UInt8) (k : Nat) : bitAt code (8 + k) = bitAt code.tail k := by
  unfold bitAt
  rw [Nat.add_div_left k (by decide), Nat.add_mod_left, byteAt_succ]

/-! ## §2. Distance -/

/-- **The distance takes one byte off each code**, and a zero byte where a code has ended. -/
theorem distance_step (a b : List UInt8) :
    distance a b = bitCount (a.headD 0 ^^^ b.headD 0) + distance a.tail b.tail := by
  -- only where both codes have a byte is this how the distance is defined
  have empty (code : List UInt8) : distance code [] = (code.map bitCount).sum := by
    cases code <;> rfl
  cases a with
  | nil =>
    cases b with
    | nil => rfl
    | cons y b =>
      show bitCount y + (b.map bitCount).sum = bitCount (0 ^^^ y) + (b.map bitCount).sum
      rw [UInt8.zero_xor]
  | cons x a =>
    cases b with
    | nil =>
      show bitCount x + (a.map bitCount).sum = bitCount (x ^^^ 0) + distance a []
      rw [UInt8.xor_zero, empty]
    | cons y b => rfl

/-- The bits of the first bytes that differ. -/
theorem countP_differsAt_byte (a b : List UInt8) :
    (List.range 8).countP (differsAt a b) = bitCount (a.headD 0 ^^^ b.headD 0) := by
  unfold bitCount
  refine List.countP_congr fun k member => ?_
  have inside : k < 8 := List.mem_range.1 member
  unfold differsAt
  rw [bitAt_of_lt a inside, bitAt_of_lt b inside, UInt8.toNat_xor, Nat.testBit_xor]

/-- The distance counts the places at which the codes differ, up to any that lies behind both. -/
theorem distance_eq_countP {a b : List UInt8} {n : Nat} (ha : a.length ≤ n) (hb : b.length ≤ n) :
    distance a b = (List.range (8 * n)).countP (differsAt a b) := by
  -- by the number of bytes, with one byte off each code in a step
  induction n generalizing a b with
  | zero =>
    rw [List.length_eq_zero_iff.1 (Nat.le_zero.1 ha), List.length_eq_zero_iff.1 (Nat.le_zero.1 hb)]
    rfl
  | succ n ih =>
    have shift : differsAt a b ∘ (8 + ·) = differsAt a.tail b.tail := by
      funext k
      show differsAt a b (8 + k) = _
      unfold differsAt
      rw [bitAt_add, bitAt_add]
    have shorter (code : List UInt8) (h : code.length ≤ n + 1) : code.tail.length ≤ n := by
      rw [List.length_tail]
      omega
    calc distance a b
        = bitCount (a.headD 0 ^^^ b.headD 0) + distance a.tail b.tail := distance_step a b
      _ = (List.range 8).countP (differsAt a b)
            + (List.range (8 * n)).countP (differsAt a.tail b.tail) := by
          rw [countP_differsAt_byte, ih (shorter a ha) (shorter b hb)]
      _ = (List.range (8 + 8 * n)).countP (differsAt a b) := by
          rw [List.range_add, List.countP_append, List.countP_map, shift]
      _ = (List.range (8 * (n + 1))).countP (differsAt a b) := by
          rw [Nat.mul_succ, Nat.add_comm]

/-- Behind both codes they do not differ. -/
theorem lt_of_mem_differing {a b : List UInt8} {n k : Nat} (ha : a.length ≤ n) (hb : b.length ≤ n)
    (h : k ∈ differing a b) : k < 8 * n := by
  by_contra behind
  refine h ?_
  have beyond : n ≤ k / 8 := by omega
  unfold bitAt
  rw [byteAt_of_le (Nat.le_trans ha beyond), byteAt_of_le (Nat.le_trans hb beyond)]

/-- **The distance is the number of places at which two endless rows of bits differ.** -/
theorem encard_differing (a b : List UInt8) : (differing a b).encard = distance a b := by
  have ha : a.length ≤ max a.length b.length := Nat.le_max_left _ _
  have hb : b.length ≤ max a.length b.length := Nat.le_max_right _ _
  -- the places are finitely many, since they lie before the end of the longer code
  have places : differing a b
      = ((List.range (8 * max a.length b.length)).filter (differsAt a b)).toFinset := by
    ext k
    rw [Finset.mem_coe, List.mem_toFinset, List.mem_filter, List.mem_range, mem_differing_iff]
    exact ⟨fun h => ⟨lt_of_mem_differing ha hb (mem_differing_iff.2 h), h⟩, And.right⟩
  rw [places, Set.encard_coe_eq_coe_finsetCard,
    List.toFinset_card_of_nodup (List.nodup_range.filter _), ← List.countP_eq_length_filter,
    ← distance_eq_countP ha hb]

/-! ## §3. Codes without the zero bytes at their ends -/

/-- A code without the zero bytes at its end. -/
def withoutZeros (code : List UInt8) : List UInt8 := code.rdropWhile (· == 0)

theorem withoutZeros_append_zeros (code : List UInt8) (n : Nat) :
    withoutZeros (code ++ List.replicate n 0) = withoutZeros code := by
  induction n with
  | zero =>
    show withoutZeros (code ++ []) = _
    rw [List.append_nil]
  | succ n ih =>
    rw [List.replicate_succ', ← List.append_assoc]
    exact (List.rdropWhile_concat_pos (· == (0 : UInt8)) _ 0 rfl).trans ih

theorem exists_zeros (code : List UInt8) :
    ∃ n, code = withoutZeros code ++ List.replicate n 0 := by
  refine ⟨(code.rtakeWhile (· == 0)).length, ?_⟩
  have zeros : code.rtakeWhile (· == 0)
      = List.replicate (code.rtakeWhile (· == 0)).length 0 :=
    List.eq_replicate_iff.2 ⟨rfl, fun x member => by simpa using List.mem_rtakeWhile_imp member⟩
  rw [← zeros]
  exact List.rdropWhile_append_rtakeWhile.symm

/-- Equal up to zero bytes at the end is equal without these. -/
theorem equalUpToZeros_iff (a b : List UInt8) :
    EqualUpToZeros a b ↔ withoutZeros a = withoutZeros b := by
  constructor
  · intro h
    obtain ⟨n, longer | longer⟩ := h
    · rw [longer, withoutZeros_append_zeros]
    · rw [longer, withoutZeros_append_zeros]
  · intro same
    obtain ⟨n, ha⟩ := exists_zeros a
    obtain ⟨m, hb⟩ := exists_zeros b
    rw [same] at ha
    -- the code with fewer zero bytes is the shorter one
    rcases Nat.le_total n m with le | le
    · refine ⟨m - n, .inr ?_⟩
      rw [ha, List.append_assoc, List.replicate_append_replicate, Nat.add_sub_cancel' le]
      exact hb
    · refine ⟨n - m, .inl ?_⟩
      rw [hb, List.append_assoc, List.replicate_append_replicate, Nat.add_sub_cancel' le]
      exact ha

/-! ## §4. The laws of the distance -/

theorem distance_comm (a b : List UInt8) : distance a b = distance b a := by
  have same : differing a b = differing b a := by
    ext k
    exact ne_comm
  have cards : (distance a b : ℕ∞) = distance b a := by
    rw [← encard_differing, ← encard_differing, same]
  exact_mod_cast cards

theorem distance_triangle (a b c : List UInt8) :
    distance a c ≤ distance a b + distance b c := by
  -- where `a` and `c` differ, `b` cannot agree with both
  have cover : differing a c ⊆ differing a b ∪ differing b c := by
    intro k differ
    by_cases first : bitAt a k = bitAt b k
    · exact .inr fun second => differ (first.trans second)
    · exact .inl first
  have cards : (distance a c : ℕ∞) ≤ distance a b + distance b c := by
    rw [← encard_differing, ← encard_differing, ← encard_differing]
    exact (Set.encard_le_encard cover).trans (Set.encard_union_le _ _)
  exact_mod_cast cards

theorem distance_le (a b : List UInt8) : distance a b ≤ 8 * max a.length b.length := by
  rw [distance_eq_countP (Nat.le_max_left _ _) (Nat.le_max_right _ _)]
  exact List.countP_le_length.trans (Nat.le_of_eq List.length_range)

/-- **The distance counts the bits in which two codes differ that are extended by zero bytes
without end.** It is symmetric and obeys the law of the triangle, it is zero exactly between codes
that are equal without the zero bytes at their ends, and it is at most the number of bits of the
longer code. -/
theorem distance_pseudometric (a b c : List UInt8) :
    {k | bitAt a k ≠ bitAt b k}.encard = distance a b
    ∧ distance a b = distance b a
    ∧ distance a c ≤ distance a b + distance b c
    ∧ (distance a b = 0 ↔ withoutZeros a = withoutZeros b)
    ∧ distance a b ≤ 8 * max a.length b.length := by
  refine ⟨encard_differing a b, distance_comm a b, distance_triangle a b c, ?_, distance_le a b⟩
  rw [distance_eq_zero_iff, equalUpToZeros_iff]

example : distance [0x01] [0x01, 0xff, 0x03] = 10 := by decide

end FuzzBundle.Bytecode
