/-
  FuzzBundle.Proofs.Nearest — the first of the nearest, as a scan finds it.

  A scan that goes through some items and replaces what it holds by a strictly lighter one holds in
  the end the first item of least weight (`scan_eq_some_iff`). Candidates for a code are scanned
  by their distance (`bestMatch_eq_scan`).
-/
import Mathlib.Data.List.Induction
import FuzzBundle.Bytecode.Match

namespace FuzzBundle

variable {α : Type}

/-! ## §1. Scans -/

/-- What a scan holds after one more item. -/
def keepLighter (weight : α → Nat) (held? : Option α) (a : α) : Option α :=
  match held? with
  | none => some a
  | some held => if weight a < weight held then some a else some held

/-- What a scan holds in the end. -/
def scan (weight : α → Nat) (items : List α) : Option α := items.foldl (keepLighter weight) none

/-- The item at a place is the first one of least weight. -/
structure FirstLeast (weight : α → Nat) (items : List α) (i : Nat) (a : α) : Prop where
  here : items[i]? = some a
  least : ∀ b ∈ items, weight a ≤ weight b
  first : ∀ j b, j < i → items[j]? = some b → weight a < weight b

theorem scan_append (weight : α → Nat) (items : List α) (a : α) :
    scan weight (items ++ [a]) = keepLighter weight (scan weight items) a := by
  rw [scan, List.foldl_append]
  rfl

/-- There is only one place for the first item of least weight. -/
theorem FirstLeast.unique {weight : α → Nat} {items : List α} {i j : Nat} {a b : α}
    (ha : FirstLeast weight items i a) (hb : FirstLeast weight items j b) : i = j ∧ a = b := by
  have hab : weight a ≤ weight b := ha.least b (List.mem_of_getElem? hb.here)
  have hba : weight b ≤ weight a := hb.least a (List.mem_of_getElem? ha.here)
  have place : i = j := by
    rcases Nat.lt_trichotomy i j with h | h | h
    · have := hb.first i a h ha.here
      omega
    · exact h
    · have := ha.first j b h hb.here
      omega
  subst place
  have same : some a = some b := ha.here.symm.trans hb.here
  exact ⟨rfl, Option.some.inj same⟩

/-- An item that is no lighter changes nothing. -/
theorem FirstLeast.append_heavier {weight : α → Nat} {items : List α} {i : Nat} {a b : α}
    (ha : FirstLeast weight items i a) (hb : weight a ≤ weight b) :
    FirstLeast weight (items ++ [b]) i a := by
  have hi : i < items.length := (List.getElem?_eq_some_iff.1 ha.here).1
  refine ⟨?_, ?_, ?_⟩
  · rw [List.getElem?_append_left hi]
    exact ha.here
  · intro c hc
    rcases List.mem_append.1 hc with h | h
    · exact ha.least c h
    · rw [List.mem_singleton.1 h]
      exact hb
  · intro j c hj hc
    rw [List.getElem?_append_left (by omega)] at hc
    exact ha.first j c hj hc

/-- A lighter item is the first of least weight where it is added. -/
theorem firstLeast_append_lighter {weight : α → Nat} {items : List α} {b : α}
    (hb : ∀ a ∈ items, weight b < weight a) :
    FirstLeast weight (items ++ [b]) items.length b := by
  refine ⟨by simp, ?_, ?_⟩
  · intro c hc
    rcases List.mem_append.1 hc with h | h
    · exact Nat.le_of_lt (hb c h)
    · exact Nat.le_of_eq (congrArg weight (List.mem_singleton.1 h).symm)
  · intro j c hj hc
    rw [List.getElem?_append_left hj] at hc
    exact hb c (List.mem_of_getElem? hc)

/-- What a scan holds is the first item of least weight; it holds nothing only of no items. -/
theorem scan_spec (weight : α → Nat) (items : List α) :
    match scan weight items with
    | none => items = []
    | some a => ∃ i, FirstLeast weight items i a := by
  induction items using List.reverseRecOn with
  | nil => rfl
  | append_singleton items b ih =>
    rw [scan_append]
    cases hs : scan weight items with
    | none =>
      rw [hs] at ih
      subst ih
      exact ⟨0, firstLeast_append_lighter (by simp)⟩
    | some a =>
      rw [hs] at ih
      obtain ⟨i, ha⟩ := ih
      -- only a strictly lighter item is taken, so that of equal ones the first stays
      by_cases hlt : weight b < weight a
      · rw [keepLighter, if_pos hlt]
        exact ⟨items.length, firstLeast_append_lighter fun c hc =>
          Nat.lt_of_lt_of_le hlt (ha.least c hc)⟩
      · rw [keepLighter, if_neg hlt]
        exact ⟨i, ha.append_heavier (Nat.not_lt.1 hlt)⟩

theorem scan_eq_none_iff (weight : α → Nat) (items : List α) :
    scan weight items = none ↔ items = [] := by
  constructor
  · intro h
    have spec := scan_spec weight items
    rw [h] at spec
    exact spec
  · rintro rfl
    rfl

/-- **A scan holds in the end the first item of least weight.** -/
theorem scan_eq_some_iff (weight : α → Nat) (items : List α) (a : α) :
    scan weight items = some a ↔ ∃ i, FirstLeast weight items i a := by
  have spec := scan_spec weight items
  constructor
  · intro h
    rw [h] at spec
    exact spec
  · rintro ⟨i, ha⟩
    cases hs : scan weight items with
    | none =>
      rw [hs] at spec
      have mem := List.mem_of_getElem? ha.here
      rw [spec] at mem
      cases mem
    | some b =>
      rw [hs] at spec
      obtain ⟨j, hb⟩ := spec
      rw [(ha.unique hb).2]

/-- The order of the items has no part in how light the item is that a scan holds. -/
theorem scan_weight_perm (weight : α → Nat) {xs ys : List α} (h : xs.Perm ys) :
    (scan weight xs).map weight = (scan weight ys).map weight := by
  cases hx : scan weight xs with
  | none =>
    have empty : xs = [] := (scan_eq_none_iff weight xs).1 hx
    subst empty
    rw [List.nil_perm.1 h]
    rfl
  | some a =>
    cases hy : scan weight ys with
    | none =>
      have empty : ys = [] := (scan_eq_none_iff weight ys).1 hy
      subst empty
      rw [List.perm_nil.1 h] at hx
      cases hx
    | some b =>
      obtain ⟨i, ha⟩ := (scan_eq_some_iff weight xs a).1 hx
      obtain ⟨j, hb⟩ := (scan_eq_some_iff weight ys b).1 hy
      -- each is among the items of the other scan, which it found none lighter in
      have hab := ha.least b (h.mem_iff.2 (List.mem_of_getElem? hb.here))
      have hba := hb.least a (h.mem_iff.1 (List.mem_of_getElem? ha.here))
      exact congrArg some (Nat.le_antisymm hab hba)

/-! ## §2. Candidates for a code -/

namespace Bytecode

/-- The candidates that count for a code, in their order. -/
def gated (target : List UInt8) (candidates : List Candidate) (tolerance : Binary64) :
    List Candidate :=
  candidates.filter fun c => withinLengthGate target.length c.code.length tolerance

/-- How far a candidate is from a code. -/
def distanceTo (target : List UInt8) (c : Candidate) : Nat := distance target c.code

/-- The nearest of some candidates is what a scan of them holds, with its distance. -/
theorem foldl_better_eq_scan (target : List UInt8) (candidates : List Candidate) :
    candidates.foldl (better target) none
      = (scan (distanceTo target) candidates).map fun c => (c, distanceTo target c) := by
  -- both folds go on in step when the one that keeps distances starts with that of what is held
  have step : ∀ (cs : List Candidate) (held? : Option Candidate),
      cs.foldl (better target) (held?.map fun c => (c, distanceTo target c))
        = (cs.foldl (keepLighter (distanceTo target)) held?).map
            fun c => (c, distanceTo target c) := by
    intro cs
    induction cs with
    | nil => intro held?; rfl
    | cons c cs ih =>
      intro held?
      rw [List.foldl_cons, List.foldl_cons, ← ih]
      congr 1
      cases held? with
      | none => rfl
      | some held =>
        show (if distanceTo target c < distanceTo target held then _ else _) = _
        by_cases h : distanceTo target c < distanceTo target held
        · rw [keepLighter, if_pos h, if_pos h]
          rfl
        · rw [keepLighter, if_neg h, if_neg h]
          rfl
  exact step candidates none

/-- The best match is what a scan of the candidates that count holds, with its distance. -/
theorem bestMatch_eq_scan (target : List UInt8) (candidates : List Candidate)
    (tolerance : Binary64) :
    bestMatch target candidates tolerance
      = (scan (distanceTo target) (gated target candidates tolerance)).map
          fun c => (c, distanceTo target c) :=
  foldl_better_eq_scan target (gated target candidates tolerance)

end Bytecode

end FuzzBundle
