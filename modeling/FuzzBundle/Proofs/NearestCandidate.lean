/-
  FuzzBundle.Proofs.NearestCandidate — the best match as a place in the list of candidates.

  The best match is scanned for among the candidates that pass the length gate. Going back from a
  place among these to a place in the whole list keeps their order (`exists_firstLeast_filter_iff`),
  so that the match is told without the scan: it passes the gate, no candidate that passes it is
  nearer, and every earlier one that passes it is strictly farther. Candidates that do not pass are
  therefore without any influence, wherever they stand, and the order of the candidates decides only
  between equally near ones.

  Main statement: `bestMatch_firstLeast`.
-/
import FuzzBundle.Proofs.Nearest

namespace FuzzBundle

variable {α : Type}

/-! ## §1. The first of the lightest items that count -/

/-- The item at a place counts, is of least weight among the items that do, and is the first of
these. -/
structure FirstLeastOf (counts : α → Bool) (weight : α → Nat) (items : List α) (i : Nat)
    (a : α) : Prop where
  here : items[i]? = some a
  counted : counts a = true
  least : ∀ b ∈ items, counts b = true → weight a ≤ weight b
  first : ∀ j b, j < i → items[j]? = some b → counts b = true → weight a < weight b

section Places

variable (counts : α → Bool) (items : List α)

/-- How many items before a place count. -/
def countedBefore (i : Nat) : Nat := (items.take i).countP counts

theorem countedBefore_mono {i j : Nat} (h : i ≤ j) :
    countedBefore counts items i ≤ countedBefore counts items j :=
  (List.take_prefix_take_left h).sublist.countP_le

variable {counts items}

theorem countedBefore_succ {i : Nat} {a : α} (here : items[i]? = some a)
    (counted : counts a = true) :
    countedBefore counts items (i + 1) = countedBefore counts items i + 1 := by
  unfold countedBefore
  rw [List.take_add_one, here, List.countP_append]
  show _ + List.countP counts [a] = _
  rw [List.countP_singleton, if_pos counted]

/-- An item that counts stands among those that do behind all that count before it. -/
theorem getElem?_filter_countedBefore {i : Nat} {a : α} (here : items[i]? = some a)
    (counted : counts a = true) :
    (items.filter counts)[countedBefore counts items i]? = some a := by
  obtain ⟨inside, same⟩ := List.getElem?_eq_some_iff.1 here
  have split : items = items.take i ++ a :: items.drop (i + 1) := by
    rw [← same, ← List.drop_eq_getElem_cons inside, List.take_append_drop]
  unfold countedBefore
  rw [List.countP_eq_length_filter]
  calc (items.filter counts)[((items.take i).filter counts).length]?
      = ((items.take i).filter counts
          ++ (a :: items.drop (i + 1)).filter counts)[((items.take i).filter counts).length]? := by
        rw [← List.filter_append, ← split]
    _ = some a := by
        rw [List.getElem?_append_right (Nat.le_refl _), Nat.sub_self,
          List.filter_cons_of_pos counted]
        rfl

/-- Every place among the items that count comes from one in the whole list. -/
theorem exists_place_of_getElem?_filter {k : Nat} {a : α}
    (here : (items.filter counts)[k]? = some a) :
    ∃ i, items[i]? = some a ∧ counts a = true ∧ countedBefore counts items i = k := by
  -- by the items, of which the first one is counted or left out
  induction items generalizing k with
  | nil => cases here
  | cons b items ih =>
    by_cases counted : counts b = true
    · rw [List.filter_cons_of_pos counted] at here
      cases k with
      | zero =>
        cases here
        exact ⟨0, rfl, counted, rfl⟩
      | succ k =>
        obtain ⟨i, place, ha, before⟩ := ih here
        refine ⟨i + 1, place, ha, ?_⟩
        show List.countP counts (b :: items.take i) = k + 1
        rw [List.countP_cons_of_pos counted]
        exact congrArg (· + 1) before
    · rw [List.filter_cons_of_neg counted] at here
      obtain ⟨i, place, ha, before⟩ := ih here
      refine ⟨i + 1, place, ha, ?_⟩
      show List.countP counts (b :: items.take i) = k
      rw [List.countP_cons_of_neg counted]
      exact before

variable {weight : α → Nat}

/-- **To leave out what does not count changes the place but not the first of the lightest.** -/
theorem exists_firstLeast_filter_iff (a : α) :
    (∃ k, FirstLeast weight (items.filter counts) k a)
      ↔ ∃ i, FirstLeastOf counts weight items i a := by
  constructor
  · intro ⟨k, least⟩
    obtain ⟨i, here, counted, before⟩ := exists_place_of_getElem?_filter least.here
    refine ⟨i, here, counted, ?_, ?_⟩
    · intro b member hb
      exact least.least b (List.mem_filter.2 ⟨member, hb⟩)
    · intro j b earlier place hb
      refine least.first (countedBefore counts items j) b ?_
        (getElem?_filter_countedBefore place hb)
      -- the item at `j` is itself one of those that count before `i`
      have one := countedBefore_succ place hb
      have mono := countedBefore_mono counts items (show j + 1 ≤ i from earlier)
      omega
  · intro ⟨i, least⟩
    refine ⟨countedBefore counts items i, ?_, ?_, ?_⟩
    · exact getElem?_filter_countedBefore least.here least.counted
    · intro b member
      obtain ⟨inList, hb⟩ := List.mem_filter.1 member
      exact least.least b inList hb
    · intro k b earlier place
      obtain ⟨j, here, hb, before⟩ := exists_place_of_getElem?_filter place
      refine least.first j b ?_ here hb
      -- a later place in the whole list is no earlier one among those that count
      by_contra later
      have mono := countedBefore_mono counts items (Nat.not_lt.1 later)
      omega

end Places

/-! ## §2. Items that do not count -/

/-- A list is another one with items put in between, or at the ends, that do not count. -/
inductive Interspersed (counts : α → Bool) : List α → List α → Prop where
  | nil : Interspersed counts [] []
  | keep (a : α) {items more : List α} :
      Interspersed counts items more → Interspersed counts (a :: items) (a :: more)
  | insert {a : α} {items more : List α} (uncounted : counts a = false) :
      Interspersed counts items more → Interspersed counts items (a :: more)

theorem Interspersed.filter_eq {counts : α → Bool} {items more : List α}
    (h : Interspersed counts items more) : more.filter counts = items.filter counts := by
  induction h with
  | nil => rfl
  | keep a _ ih => rw [List.filter_cons, List.filter_cons, ih]
  | insert uncounted _ ih =>
    rw [List.filter_cons_of_neg (by rw [uncounted]; decide)]
    exact ih

/-! ## §3. The best match -/

namespace Bytecode

/-- Whether a candidate has a suitable length for a code. -/
def passes (target : List UInt8) (tolerance : Binary64) (c : Candidate) : Bool :=
  withinLengthGate target.length c.code.length tolerance

theorem bestMatch_eq_none_iff (target : List UInt8) (candidates : List Candidate)
    (tolerance : Binary64) :
    bestMatch target candidates tolerance = none
      ↔ ∀ c ∈ candidates, ¬ passes target tolerance c = true := by
  rw [bestMatch_eq_scan, Option.map_eq_none_iff, scan_eq_none_iff]
  exact List.filter_eq_nil_iff

theorem bestMatch_eq_some_iff (target : List UInt8) (candidates : List Candidate)
    (tolerance : Binary64) (c : Candidate) (d : Nat) :
    bestMatch target candidates tolerance = some (c, d)
      ↔ d = distance target c.code
        ∧ ∃ i, FirstLeastOf (passes target tolerance) (distanceTo target) candidates i c := by
  rw [bestMatch_eq_scan, Option.map_eq_some_iff, ← exists_firstLeast_filter_iff]
  constructor
  · intro ⟨held, found, same⟩
    cases same
    exact ⟨rfl, (scan_eq_some_iff _ _ _).1 found⟩
  · intro ⟨away, least⟩
    exact ⟨c, (scan_eq_some_iff _ _ _).2 least, by rw [away]; rfl⟩

/-- Only the candidates that pass have a part in the best match. -/
theorem bestMatch_congr {target : List UInt8} {candidates others : List Candidate}
    {tolerance : Binary64}
    (h : others.filter (passes target tolerance) = candidates.filter (passes target tolerance)) :
    bestMatch target others tolerance = bestMatch target candidates tolerance :=
  congrArg (·.foldl (better target) none) h

/-- The order of the candidates has no part in the distance of the best match. -/
theorem bestMatch_distance_perm (target : List UInt8) {candidates others : List Candidate}
    (tolerance : Binary64) (h : candidates.Perm others) :
    (bestMatch target others tolerance).map (·.2)
      = (bestMatch target candidates tolerance).map (·.2) := by
  have weights := scan_weight_perm (distanceTo target) (h.filter (passes target tolerance))
  rw [bestMatch_eq_scan, bestMatch_eq_scan, Option.map_map, Option.map_map]
  exact weights.symm

/-- **The best match is the first of the nearest candidates that pass the length gate.** There is
none only if no candidate passes it. Candidates that do not pass change nothing wherever they are
put, and in every order of the candidates the distance is the same. -/
theorem bestMatch_firstLeast (target : List UInt8) (candidates : List Candidate)
    (tolerance : Binary64) :
    (bestMatch target candidates tolerance = none
        ↔ ∀ c ∈ candidates, ¬ passes target tolerance c = true)
    ∧ (∀ c d, bestMatch target candidates tolerance = some (c, d)
        ↔ d = distance target c.code
          ∧ ∃ i, FirstLeastOf (passes target tolerance) (distanceTo target) candidates i c)
    ∧ (∀ more, Interspersed (passes target tolerance) candidates more →
        bestMatch target more tolerance = bestMatch target candidates tolerance)
    ∧ ∀ others, candidates.Perm others →
        (bestMatch target others tolerance).map (·.2)
          = (bestMatch target candidates tolerance).map (·.2) := by
  refine ⟨bestMatch_eq_none_iff target candidates tolerance, ?_, ?_, ?_⟩
  · intro c d
    exact bestMatch_eq_some_iff target candidates tolerance c d
  · intro more inserted
    exact bestMatch_congr inserted.filter_eq
  · intro others reordered
    exact bestMatch_distance_perm target tolerance reordered

/-- Code of four bytes. -/
def pairCode : List UInt8 := [0x60, 0x80, 0xaa, 0xbb]

/-- A candidate that differs from that code in three bits, and two that are that code. -/
def pairCandidates : List Candidate :=
  [⟨"0x1", [0x60, 0x80, 0xaa, 0xbc]⟩, ⟨"0x2", pairCode⟩, ⟨"0x3", pairCode⟩]

/-- A candidate that is too short for that code. -/
def shortCandidate : Candidate := ⟨"0x0", [0x60, 0x80, 0xaa]⟩

/-- The second candidate is found, also behind one that is too short. From the other end it is the
third one, at the same distance. -/
theorem bestMatch_firstLeast_pair :
    bestMatch pairCode pairCandidates (.ofDecimal false 1 (-1)) = some (⟨"0x2", pairCode⟩, 0)
    ∧ (∃ i, FirstLeastOf (passes pairCode (.ofDecimal false 1 (-1))) (distanceTo pairCode)
        pairCandidates i ⟨"0x2", pairCode⟩)
    ∧ Interspersed (passes pairCode (.ofDecimal false 1 (-1))) pairCandidates
        (shortCandidate :: pairCandidates)
    ∧ bestMatch pairCode (shortCandidate :: pairCandidates) (.ofDecimal false 1 (-1))
        = bestMatch pairCode pairCandidates (.ofDecimal false 1 (-1))
    ∧ pairCandidates.Perm pairCandidates.reverse
    ∧ (bestMatch pairCode pairCandidates.reverse (.ofDecimal false 1 (-1))).map (·.2)
        = (bestMatch pairCode pairCandidates (.ofDecimal false 1 (-1))).map (·.2) := by
  have found : bestMatch pairCode pairCandidates (.ofDecimal false 1 (-1))
      = some (⟨"0x2", pairCode⟩, 0) := by decide +kernel
  have short : passes pairCode (.ofDecimal false 1 (-1)) shortCandidate = false := by
    decide +kernel
  have inserted : Interspersed (passes pairCode (.ofDecimal false 1 (-1))) pairCandidates
      (shortCandidate :: pairCandidates) :=
    .insert short (.keep _ (.keep _ (.keep _ .nil)))
  have reordered : pairCandidates.Perm pairCandidates.reverse :=
    (List.reverse_perm pairCandidates).symm
  obtain ⟨-, place, insert, order⟩ :=
    bestMatch_firstLeast pairCode pairCandidates (.ofDecimal false 1 (-1))
  exact ⟨found, ((place _ _).1 found).2, inserted, insert _ inserted, reordered,
    order _ reordered⟩

end Bytecode

end FuzzBundle
