/-
  FuzzBundle.Proofs.Visits — which nodes a walk visits, and when.

  A node below another one has an address: the places to go through, one after the other
  (`Node.at?`). A place is a field, or an index in a field that is a list. One node may stand at
  several addresses, so it is addresses that a walk visits once.

  `addresses` lists the addresses of a tree in the order of the walk. Children are sorted by offset
  only, so their order at equal offsets rests on the sort: it keeps what it finds
  (`pairwise_mergeSort_of_pairwise`), and it finds the children by field and by index
  (`placesAscend`). Everything about whole trees is carried up from the children by
  `inductionOn`.

  Main statement: `visited_addresses`.
-/
import FuzzBundle.Ast.Node
import Mathlib.Data.List.Basic

namespace FuzzBundle

/-! ## §1. A sort that keeps what is in order -/

section Stable

variable {α : Type} (rank : α → Nat)

private theorem rank_trans (a b c : α) (hab : decide (rank a ≤ rank b) = true)
    (hbc : decide (rank b ≤ rank c) = true) : decide (rank a ≤ rank c) = true := by
  rw [decide_eq_true_eq] at *
  omega

private theorem rank_total (a b : α) :
    (decide (rank a ≤ rank b) || decide (rank b ≤ rank a)) = true := by
  rw [Bool.or_eq_true, decide_eq_true_eq, decide_eq_true_eq]
  omega

theorem pairwise_rank_mergeSort (l : List α) :
    (l.mergeSort fun a b => rank a ≤ rank b).Pairwise fun a b => rank a ≤ rank b :=
  (List.pairwise_mergeSort (rank_trans rank) (rank_total rank) l).imp of_decide_eq_true

/-- Sorting leaves the elements of one rank as they stand. -/
theorem filter_rank_mergeSort (l : List α) (k : Nat) :
    (l.mergeSort fun a b => rank a ≤ rank b).filter (rank · = k) = l.filter (rank · = k) := by
  have level : (l.filter (rank · = k)).Pairwise fun a b => decide (rank a ≤ rank b) = true := by
    refine List.pairwise_of_forall_mem_list fun a ha b hb => ?_
    have := of_decide_eq_true (List.mem_filter.1 ha).2
    have := of_decide_eq_true (List.mem_filter.1 hb).2
    rw [decide_eq_true_eq]
    omega
  have kept : (l.filter (rank · = k)).Sublist
      ((l.mergeSort fun a b => rank a ≤ rank b).filter (rank · = k)) := by
    have := (List.sublist_mergeSort (rank_trans rank) (rank_total rank) level
      List.filter_sublist).filter (rank · = k)
    rwa [List.filter_filter, List.filter_congr fun a _ => Bool.and_self _] at this
  -- as many elements are left on either side
  exact (kept.eq_of_length ((List.mergeSort_perm l _).filter _).length_eq.symm).symm

/-- Elements that stand in some order are sorted by rank, and at equal ranks by that order. -/
theorem pairwise_mergeSort_of_pairwise {R : α → α → Prop} {l : List α} (ordered : l.Pairwise R) :
    (l.mergeSort fun a b => rank a ≤ rank b).Pairwise fun a b =>
      rank a < rank b ∨ rank a = rank b ∧ R a b := by
  rw [List.pairwise_iff_forall_sublist]
  intro a b there
  have le : rank a ≤ rank b :=
    List.pairwise_iff_forall_sublist.1 (pairwise_rank_mergeSort rank l) there
  rcases Nat.lt_or_eq_of_le le with less | equal
  · exact .inl less
  · -- both are of one rank, where the sort has changed nothing
    have level := there.filter (rank · = rank b)
    rw [filter_rank_mergeSort] at level
    have both : [a, b].filter (rank · = rank b) = [a, b] := by simp [equal]
    rw [both] at level
    exact .inr ⟨equal, List.pairwise_iff_forall_sublist.1 ordered
      (level.trans List.filter_sublist)⟩

end Stable

/-! ## §2. Places and addresses -/

namespace Node

/-- Where a node stands right below another one: a field, or an index in a field that is a list. -/
structure Place where
  key : String
  index? : Option Nat
  deriving DecidableEq, Repr

/-- The order of places: by field, and in one list by index. -/
inductive Place.Before : Place → Place → Prop
  | field {k l : String} {i j : Option Nat} : k < l → Before ⟨k, i⟩ ⟨l, j⟩
  | item {k : String} {i j : Nat} : i < j → Before ⟨k, some i⟩ ⟨k, some j⟩

theorem Place.Before.irrefl {p : Place} : ¬ p.Before p := by
  intro h
  cases h with
  | field less => exact absurd less (String.lt_irrefl _)
  | item less => exact absurd less (Nat.lt_irrefl _)

/-- The places to go through from one node to another one below it. -/
abbrev Address := List Place

/-- The node that a value is, or that its item at an index is. -/
def nodeAt? (value : Json) : Option Nat → Option Node
  | none => ofJson? value
  | some i => (value.items?.bind (·[i]?)).bind ofJson?

/-- The node at a place. -/
def childAt? (n : Node) (p : Place) : Option Node :=
  (n.field? p.key).bind (nodeAt? · p.index?)

/-- The node at an address. -/
def at? (n : Node) : Address → Option Node
  | [] => some n
  | p :: rest => (n.childAt? p).bind (at? · rest)

@[simp] theorem at?_nil (n : Node) : n.at? [] = some n := rfl

theorem at?_cons_eq_some_iff {n m : Node} {p : Place} {rest : Address} :
    n.at? (p :: rest) = some m ↔ ∃ c, n.childAt? p = some c ∧ c.at? rest = some m :=
  Option.bind_eq_some_iff

theorem at?_cons {n c : Node} {p : Place} (rest : Address) (h : n.childAt? p = some c) :
    n.at? (p :: rest) = c.at? rest := by
  rw [at?, h, Option.bind_some]

theorem at?_singleton (n : Node) (p : Place) : n.at? [p] = n.childAt? p :=
  Option.bind_fun_some _

/-- A child comes earlier than another one: its offset is lower, or it is the same and its place
comes before. -/
def Earlier (a b : Place × Node) : Prop :=
  a.2.sourceRank < b.2.sourceRank ∨ a.2.sourceRank = b.2.sourceRank ∧ a.1.Before b.1

theorem Earlier.irrefl {a : Place × Node} : ¬ Earlier a a := by
  rintro (less | ⟨-, before⟩)
  · exact absurd less (Nat.lt_irrefl _)
  · exact before.irrefl

/-- The order of a walk: a node comes before everything below it, and of two children of one node
the earlier one comes, with everything below it, before the other one. -/
inductive Precedes (n : Node) : Address → Address → Prop
  | below (path : Address) {rest : Address} : rest ≠ [] → Precedes n path (path ++ rest)
  | beside (path : Address) {left right : Address} {p q : Place} {c d : Node} :
    n.at? (path ++ [p]) = some c → n.at? (path ++ [q]) = some d → Earlier (p, c) (q, d) →
    Precedes n (path ++ p :: left) (path ++ q :: right)

theorem Precedes.ne {n : Node} {a b : Address} (h : n.Precedes a b) : a ≠ b := by
  cases h with
  | below _ nonempty =>
    intro same
    exact nonempty (List.append_right_eq_self.1 same.symm)
  | beside _ left right earlier =>
    intro same
    obtain ⟨rfl, -⟩ := List.cons.inj (List.append_cancel_left same)
    cases left.symm.trans right
    exact earlier.irrefl

/-- The order below a child is the order below its parent. -/
theorem Precedes.cons {n c : Node} {p : Place} (there : n.childAt? p = some c) {a b : Address}
    (h : c.Precedes a b) : n.Precedes (p :: a) (p :: b) := by
  cases h with
  | below _ nonempty => exact .below (p :: a) nonempty
  | beside path left right earlier =>
    exact .beside (p :: path) ((at?_cons _ there).trans left) ((at?_cons _ there).trans right)
      earlier

/-! ## §3. Children with their places -/

/-- The nodes that a field holds, each with its place. -/
def placedIn (key : String) : Json → List (Place × Node)
  | .array items => items.zipIdx.filterMap fun item =>
    (ofJson? item.1).map fun c => (⟨key, some item.2⟩, c)
  | value => (ofJson? value).toList.map fun c => (⟨key, none⟩, c)

/-- The nodes right below a node in source order, each with its place. -/
def placedChildren (n : Node) : List (Place × Node) :=
  (n.fields.flatMap fun field => placedIn field.1 field.2).mergeSort
    fun a b => a.2.sourceRank ≤ b.2.sourceRank

theorem map_snd_placedIn (key : String) (value : Json) :
    (placedIn key value).map Prod.snd = inField value := by
  unfold placedIn inField
  split
  · next items =>
    calc (items.zipIdx.filterMap fun item =>
            (ofJson? item.1).map fun c => ((⟨key, some item.2⟩ : Place), c)).map Prod.snd
        = items.zipIdx.filterMap (ofJson? ∘ Prod.fst) := by
          rw [List.map_filterMap]
          simp only [Option.map_map, Function.comp_def, Option.map_id']
      _ = (items.zipIdx.map Prod.fst).filterMap ofJson? := List.filterMap_map.symm
      _ = items.filterMap ofJson? := by rw [List.zipIdx_map_fst]
  · simp [Function.comp_def]

/-- The children are those in the fields, whether their places are written beside them or not. -/
theorem map_snd_placedChildren (n : Node) : n.placedChildren.map Prod.snd = n.directChildren := by
  have sorted (l : List (Place × Node)) :
      (l.mergeSort fun a b => a.2.sourceRank ≤ b.2.sourceRank).map Prod.snd
        = (l.map Prod.snd).mergeSort fun a b => a.sourceRank ≤ b.sourceRank :=
    List.map_mergeSort fun _ _ _ _ => rfl
  rw [placedChildren, sorted, List.map_flatMap, directChildren]
  simp only [map_snd_placedIn]

theorem mem_directChildren_of_placed {n : Node} {x : Place × Node} (h : x ∈ n.placedChildren) :
    x.2 ∈ n.directChildren :=
  map_snd_placedChildren n ▸ List.mem_map_of_mem h

theorem mem_placedIn_iff {key : String} {value : Json} {p : Place} {c : Node} :
    (p, c) ∈ placedIn key value ↔ p.key = key ∧ nodeAt? value p.index? = some c := by
  obtain ⟨own, index?⟩ := p
  unfold placedIn
  split
  · next items =>
    cases index? with
    | none => simp [nodeAt?, ofJson?]
    | some i =>
      simp only [List.mem_filterMap, Option.map_eq_some_iff, Prod.mk.injEq, Place.mk.injEq,
        Option.some.injEq, Prod.exists, List.mem_zipIdx_iff_getElem?, nodeAt?, Json.items?,
        Option.bind_some, Option.bind_eq_some_iff]
      constructor
      · rintro ⟨item, _, there, _, found, ⟨rfl, rfl⟩, rfl⟩
        exact ⟨rfl, item, there, found⟩
      · rintro ⟨rfl, item, there, found⟩
        exact ⟨item, i, there, c, found, ⟨rfl, rfl⟩, rfl⟩
  · next other =>
    cases index? with
    | none => simp [nodeAt?, and_comm, eq_comm]
    | some i =>
      have unlisted : value.items? = none := by
        cases value with
        | array items => exact absurd rfl (other items)
        | _ => rfl
      simp [nodeAt?, unlisted]

theorem mem_placedChildren_iff {n : Node} (ascending : Entries.Ascending n.fields) {p : Place}
    {c : Node} : (p, c) ∈ n.placedChildren ↔ n.childAt? p = some c := by
  rw [placedChildren, List.mem_mergeSort, List.mem_flatMap, childAt?, Option.bind_eq_some_iff]
  constructor
  · rintro ⟨⟨key, value⟩, field, placed⟩
    obtain ⟨rfl, found⟩ := mem_placedIn_iff.1 placed
    exact ⟨value, Entries.get?_of_mem ascending field, found⟩
  · rintro ⟨value, field, found⟩
    exact ⟨(p.key, value), Entries.mem_of_get? field, mem_placedIn_iff.2 ⟨rfl, found⟩⟩

/-- A field holds its nodes in the order of their places. -/
theorem placedIn_before (key : String) (value : Json) :
    (placedIn key value).Pairwise fun a b => a.1.Before b.1 := by
  unfold placedIn
  split
  · next items =>
    have counted : items.zipIdx.Pairwise fun a b => a.2 < b.2 := by
      rw [← List.pairwise_map, List.zipIdx_map_snd]
      exact List.pairwise_lt_range'
    refine List.Pairwise.filterMap _ ?_ counted
    rintro ⟨x, i⟩ ⟨y, j⟩ less a ha b hb
    obtain ⟨-, -, rfl⟩ := Option.map_eq_some_iff.1 ha
    obtain ⟨-, -, rfl⟩ := Option.map_eq_some_iff.1 hb
    exact .item less
  · cases ofJson? value with
    | none => exact .nil
    | some c => exact List.pairwise_singleton _ _

/-- Before they are sorted, the children stand in the order of their places. -/
theorem placesAscend {n : Node} (ascending : Entries.Ascending n.fields) :
    (n.fields.flatMap fun field => placedIn field.1 field.2).Pairwise
      fun a b => a.1.Before b.1 := by
  rw [List.pairwise_flatMap]
  constructor
  · intro field _
    exact placedIn_before field.1 field.2
  · refine ascending.imp fun less => ?_
    rintro ⟨⟨_, _⟩, c⟩ left ⟨⟨_, _⟩, d⟩ right
    obtain ⟨rfl, -⟩ := mem_placedIn_iff.1 left
    obtain ⟨rfl, -⟩ := mem_placedIn_iff.1 right
    exact .field less

theorem placedChildren_earlier {n : Node} (ascending : Entries.Ascending n.fields) :
    n.placedChildren.Pairwise Earlier :=
  pairwise_mergeSort_of_pairwise (fun x : Place × Node => x.2.sourceRank) (placesAscend ascending)

/-! ## §4. From the children to the tree -/

/-- What holds of a node if it holds of its children holds of every node. -/
@[elab_as_elim]
theorem inductionOn {motive : Node → Prop} (n : Node)
    (step : ∀ n, (∀ c ∈ n.directChildren, motive c) → motive n) : motive n :=
  step n fun c _ => inductionOn c step
termination_by n.height
decreasing_by exact height_lt_of_mem_directChildren ‹_›

/-- A depth of at least the height is enough, and more changes nothing. -/
theorem walkWithin_of_height_le {depth : Nat} {n : Node} (h : n.height ≤ depth) :
    walkWithin depth n = n.walk := by
  induction n using inductionOn generalizing depth with
  | step n ih =>
    have positive : 0 < n.height := by
      rw [height, toJson, Json.height]
      omega
    obtain ⟨below, rfl⟩ := Nat.exists_eq_add_of_le' (Nat.lt_of_lt_of_le positive h)
    obtain ⟨own, height_eq⟩ := Nat.exists_eq_add_of_le' positive
    have children (room : Nat) (enough : n.height ≤ room + 1) :
        n.directChildren.flatMap (walkWithin room) = n.directChildren.flatMap walk :=
      List.flatMap_congr fun c hc => ih c hc <|
        Nat.le_of_lt_succ (Nat.lt_of_lt_of_le (height_lt_of_mem_directChildren hc) enough)
    rw [walk, height_eq, walkWithin, walkWithin, children below h,
      children own (Nat.le_of_eq height_eq)]

/-- A walk visits a node and then walks through its children. -/
theorem walk_eq (n : Node) : n.walk = n :: n.directChildren.flatMap walk := by
  have enough : n.height ≤ n.height + 1 := Nat.le_succ _
  rw [← walkWithin_of_height_le enough, walkWithin]
  congr 1
  exact List.flatMap_congr fun c hc =>
    walkWithin_of_height_le (Nat.le_of_lt (height_lt_of_mem_directChildren hc))

theorem mem_walk_self (n : Node) : n ∈ n.walk := by
  rw [walk_eq]
  exact List.mem_cons_self

theorem mem_walk_of_child {n c m : Node} (child : c ∈ n.directChildren) (h : m ∈ c.walk) :
    m ∈ n.walk := by
  rw [walk_eq]
  exact List.mem_cons_of_mem _ (List.mem_flatMap.2 ⟨c, child, h⟩)

/-! ## §5. The addresses of a tree -/

theorem ascending_of_canonical {n : Node} (canonical : n.toJson.Canonical) :
    Entries.Ascending n.fields := by
  rw [toJson, Json.Canonical] at canonical
  exact canonical.1

theorem childAt?_of_placed {n : Node} (canonical : n.toJson.Canonical) {x : Place × Node}
    (h : x ∈ n.placedChildren) : n.childAt? x.1 = some x.2 :=
  (mem_placedChildren_iff (ascending_of_canonical canonical)).1 h

theorem canonical_of_child {n c : Node} (canonical : n.toJson.Canonical)
    (child : c ∈ n.directChildren) : c.toJson.Canonical := by
  rw [toJson, Json.Canonical, Json.canonicalFields_iff] at canonical
  rw [directChildren, List.mem_mergeSort, List.mem_flatMap] at child
  obtain ⟨field, member, held⟩ := child
  have value := canonical.2 field member
  unfold inField at held
  split at held
  · next items heq =>
    obtain ⟨item, there, found⟩ := List.mem_filterMap.1 held
    rw [heq, Json.Canonical, Json.canonicalItems_iff] at value
    rw [toJson_of_ofJson? found]
    exact value item there
  · rwa [toJson_of_ofJson? (Option.mem_toList.1 held)]

theorem placed_of_childAt? {n c : Node} (canonical : n.toJson.Canonical) {p : Place}
    (h : n.childAt? p = some c) : (p, c) ∈ n.placedChildren :=
  (mem_placedChildren_iff (ascending_of_canonical canonical)).2 h

theorem canonical_of_childAt? {n c : Node} (canonical : n.toJson.Canonical) {p : Place}
    (h : n.childAt? p = some c) : c.toJson.Canonical :=
  canonical_of_child canonical (mem_directChildren_of_placed (placed_of_childAt? canonical h))

/-- The addresses of a node and of all below it, in the order of the walk. -/
def addresses (n : Node) : List Address :=
  [] :: n.placedChildren.attach.flatMap fun ⟨x, _⟩ => (addresses x.2).map (x.1 :: ·)
termination_by n.height
decreasing_by exact height_lt_of_mem_directChildren (mem_directChildren_of_placed ‹_›)

/-- The addresses that lead through one of some children. -/
def addressesThrough (children : List (Place × Node)) : List Address :=
  children.flatMap fun x => x.2.addresses.map (x.1 :: ·)

theorem addresses_eq (n : Node) : n.addresses = [] :: addressesThrough n.placedChildren := by
  conv_rhs =>
    rw [← List.attach_map_subtype_val n.placedChildren, addressesThrough, List.flatMap_map]
  rw [addresses]

theorem mem_addressesThrough {children : List (Place × Node)} {path : Address} :
    path ∈ addressesThrough children
      ↔ ∃ x ∈ children, ∃ rest ∈ x.2.addresses, path = x.1 :: rest := by
  rw [addressesThrough, List.mem_flatMap]
  simp only [List.mem_map, eq_comm]

theorem nil_mem_addresses (n : Node) : [] ∈ n.addresses := by
  rw [addresses_eq]
  exact List.mem_cons_self

theorem cons_mem_addresses_iff {n : Node} (canonical : n.toJson.Canonical) {p : Place}
    {rest : Address} :
    p :: rest ∈ n.addresses ↔ ∃ c, n.childAt? p = some c ∧ rest ∈ c.addresses := by
  rw [addresses_eq, List.mem_cons, or_iff_right (List.cons_ne_nil p rest), mem_addressesThrough]
  constructor
  · rintro ⟨x, placed, own, there, same⟩
    obtain ⟨rfl, rfl⟩ := List.cons.inj same
    exact ⟨x.2, childAt?_of_placed canonical placed, there⟩
  · rintro ⟨c, found, there⟩
    exact ⟨(p, c), placed_of_childAt? canonical found, rest, there, rfl⟩

/-- At the addresses of a tree, in their order, stand the nodes of the walk. -/
theorem map_at?_addresses (n : Node) (canonical : n.toJson.Canonical) :
    n.addresses.map n.at? = n.walk.map some := by
  induction n using inductionOn with
  | step n ih =>
    have below (x : Place × Node) (placed : x ∈ n.placedChildren) :
        (x.2.addresses.map (x.1 :: ·)).map n.at? = x.2.walk.map some := by
      have child := mem_directChildren_of_placed placed
      rw [← ih x.2 child (canonical_of_child canonical child), List.map_map]
      exact List.map_congr_left fun rest _ => at?_cons rest (childAt?_of_placed canonical placed)
    rw [addresses_eq, walk_eq, List.map_cons, List.map_cons, at?_nil, addressesThrough,
      List.map_flatMap, List.map_flatMap, List.flatMap_congr below, ← map_snd_placedChildren,
      List.flatMap_map]

/-- A tree has an address where it has a node. -/
theorem mem_addresses_iff (n : Node) (canonical : n.toJson.Canonical) (path : Address) :
    path ∈ n.addresses ↔ ∃ m, n.at? path = some m := by
  induction path generalizing n with
  | nil => exact iff_of_true (nil_mem_addresses n) ⟨n, at?_nil n⟩
  | cons p rest ih =>
    rw [cons_mem_addresses_iff canonical]
    constructor
    · rintro ⟨c, found, address⟩
      obtain ⟨m, there⟩ := (ih c (canonical_of_childAt? canonical found)).1 address
      exact ⟨m, at?_cons_eq_some_iff.2 ⟨c, found, there⟩⟩
    · rintro ⟨m, there⟩
      obtain ⟨c, found, there⟩ := at?_cons_eq_some_iff.1 there
      exact ⟨c, found, (ih c (canonical_of_childAt? canonical found)).2 ⟨m, there⟩⟩

/-- The addresses of a tree stand in the order of a walk. -/
theorem addresses_precedes (n : Node) (canonical : n.toJson.Canonical) :
    n.addresses.Pairwise n.Precedes := by
  induction n using inductionOn with
  | step n ih =>
    rw [addresses_eq, List.pairwise_cons, addressesThrough, List.pairwise_flatMap]
    refine ⟨?root, ?within, ?across⟩
    case root =>
      intro path h
      obtain ⟨x, -, rest, -, rfl⟩ := mem_addressesThrough.1 h
      exact .below [] (List.cons_ne_nil x.1 rest)
    case within =>
      intro x placed
      have child := mem_directChildren_of_placed placed
      rw [List.pairwise_map]
      exact (ih x.2 child (canonical_of_child canonical child)).imp
        (Precedes.cons (childAt?_of_placed canonical placed))
    case across =>
      refine (placedChildren_earlier (ascending_of_canonical canonical)).imp_of_mem ?_
      intro x y left right earlier a ha b hb
      obtain ⟨_, -, rfl⟩ := List.mem_map.1 ha
      obtain ⟨_, -, rfl⟩ := List.mem_map.1 hb
      exact .beside []
        ((at?_singleton n x.1).trans (childAt?_of_placed canonical left))
        ((at?_singleton n y.1).trans (childAt?_of_placed canonical right)) earlier

/-- No two children have one place. -/
theorem placedChildren_places {n : Node} (canonical : n.toJson.Canonical) :
    n.placedChildren.Pairwise fun x y => x.1 ≠ y.1 := by
  refine (placedChildren_earlier (ascending_of_canonical canonical)).imp_of_mem ?_
  rintro ⟨p, c⟩ ⟨q, d⟩ left right earlier same
  cases (same : p = q)
  have found := childAt?_of_placed canonical left
  cases found.symm.trans (childAt?_of_placed (x := (p, d)) canonical right)
  exact earlier.irrefl

/-- An address that leads through a child leads through no other place. -/
theorem not_below_of_mem_addressesThrough {children : List (Place × Node)} {p : Place}
    (other : ∀ x ∈ children, x.1 ≠ p) {path : Address} (h : path ∈ addressesThrough children)
    (rest : Address) : ¬ p :: rest <+: path := by
  obtain ⟨x, there, own, -, rfl⟩ := mem_addressesThrough.1 h
  exact fun through => other x there (List.cons_prefix_cons.1 through).1.symm

/-- The addresses below one stand right after it, and none of them anywhere else. -/
theorem addresses_together (n : Node) (canonical : n.toJson.Canonical) {path : Address}
    (there : path ∈ n.addresses) :
    ∃ before below after, n.addresses = before ++ path :: below ++ after
      ∧ (∀ other ∈ below, path <+: other) ∧ ∀ other ∈ before ++ after, ¬ path <+: other := by
  induction path generalizing n with
  | nil =>
    exact ⟨[], _, [], by rw [addresses_eq, List.append_nil, List.nil_append], by simp, by simp⟩
  | cons p rest ih =>
    obtain ⟨c, found, address⟩ := (cons_mem_addresses_iff canonical).1 there
    obtain ⟨before, below, after, split, inside, outside⟩ :=
      ih c (canonical_of_childAt? canonical found) address
    -- the other children have other places, so only this one can lead below the address
    obtain ⟨left, right, children⟩ := List.append_of_mem (placed_of_childAt? canonical found)
    have places := placedChildren_places canonical
    rw [children, List.pairwise_append, List.pairwise_cons] at places
    obtain ⟨-, ⟨later, -⟩, across⟩ := places
    refine ⟨[] :: addressesThrough left ++ before.map (p :: ·), below.map (p :: ·),
      after.map (p :: ·) ++ addressesThrough right, ?split, ?inside, ?outside⟩
    case split =>
      rw [addresses_eq, children, addressesThrough, List.flatMap_append, List.flatMap_cons, split]
      simp [addressesThrough]
    case inside =>
      intro other h
      obtain ⟨own, there, rfl⟩ := List.mem_map.1 h
      exact List.cons_prefix_cons.2 ⟨rfl, inside own there⟩
    case outside =>
      have shifted (own : Address) (h : own ∈ before ++ after) : ¬ p :: rest <+: p :: own :=
        fun through => outside own h (List.cons_prefix_cons.1 through).2
      simp only [List.mem_append, List.mem_cons, List.mem_map]
      rintro other (((rfl | h) | ⟨own, h, rfl⟩) | ⟨own, h, rfl⟩ | h)
      · exact fun through => List.cons_ne_nil p rest (List.prefix_nil.1 through)
      · exact not_below_of_mem_addressesThrough
          (fun x hx => across x hx _ List.mem_cons_self) h rest
      · exact shifted own (List.mem_append_left _ h)
      · exact shifted own (List.mem_append_right _ h)
      · exact not_below_of_mem_addressesThrough (fun x hx => (later x hx).symm) h rest

/-! ## §6. What a walk visits -/

/-- The visits of a walk, each told by its address. -/
structure Visited (n : Node) (visits : List Address) : Prop where
  walked : visits.map n.at? = n.walk.map some
  /-- Every address at which there is a node is visited, and no other one. -/
  everywhere : ∀ path, path ∈ visits ↔ ∃ m, n.at? path = some m
  once : visits.Nodup
  first : visits.head? = some []
  /-- Right after a node everything below it is visited, and none of that at any other time. -/
  together : ∀ path ∈ visits, ∃ before below after, visits = before ++ path :: below ++ after
    ∧ (∀ other ∈ below, path <+: other) ∧ ∀ other ∈ before ++ after, ¬ path <+: other
  inOrder : visits.Pairwise n.Precedes

theorem visited_addresses (n : Node) (canonical : n.toJson.Canonical) :
    Visited n n.addresses where
  walked := map_at?_addresses n canonical
  everywhere := mem_addresses_iff n canonical
  once := (addresses_precedes n canonical).imp Precedes.ne
  first := by rw [addresses_eq, List.head?_cons]
  together := fun _ there => addresses_together n canonical there
  inOrder := addresses_precedes n canonical

end Node

end FuzzBundle
