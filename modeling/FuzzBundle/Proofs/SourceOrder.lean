/-
  FuzzBundle.Proofs.SourceOrder — when a walk follows the source, and what it does not depend on.

  A walk sorts the children of each node, so only siblings are compared by their offsets. If the
  offsets follow the nesting of the tree (`SourceNested`), the whole walk is in their order.

  If no two siblings have the same offset, the sort alone decides their order, and it does not
  matter in which order a list holds them. A value is rearranged by one permutation of one list
  after the other (`Json.Rearranged`). A single permutation leaves the nodes of every field alike up
  to their order (`Matched`); this is carried up from the permuted list to the tree, where sorting
  brings the children back into one order (`Matched.sorted`).

  Main statement: `walk_visited`.
-/
import FuzzBundle.Proofs.Visits
import Mathlib.Data.List.Perm.Basic
import Mathlib.Data.List.Chain
import Mathlib.Data.List.Nodup

namespace FuzzBundle

/-! ## §1. Walks in the order of offsets -/

namespace Node

/-- No offset in the first tree exceeds one in the second tree. -/
def RunsBefore (c d : Node) : Prop := ∀ x ∈ c.walk, ∀ y ∈ d.walk, x.sourceRank ≤ y.sourceRank

instance : Trans RunsBefore RunsBefore RunsBefore where
  trans {_ d _} first second := fun x hx z hz =>
    Nat.le_trans (first x hx d (mem_walk_self d)) (second d (mem_walk_self d) z hz)

/-- Offsets follow the nesting: no node has an offset below that of a node above it, and of two
children that stand one after the other the first tree runs before the second. -/
structure SourceNested (n : Node) : Prop where
  inside : ∀ a ∈ n.walk, ∀ d ∈ a.walk, a.sourceRank ≤ d.sourceRank
  apart : ∀ a ∈ n.walk, a.directChildren.IsChain RunsBefore

theorem SourceNested.child {n c : Node} (h : n.SourceNested) (child : c ∈ n.directChildren) :
    c.SourceNested where
  inside a there := h.inside a (mem_walk_of_child child there)
  apart a there := h.apart a (mem_walk_of_child child there)

theorem SourceNested.walk_ascends {n : Node} (h : n.SourceNested) :
    n.walk.Pairwise fun a b => a.sourceRank ≤ b.sourceRank := by
  induction n using inductionOn with
  | step n ih =>
    have below := h.inside n (mem_walk_self n)
    rw [walk_eq, List.forall_mem_cons] at below
    rw [walk_eq, List.pairwise_cons, List.pairwise_flatMap]
    have apart : n.directChildren.Pairwise RunsBefore :=
      List.isChain_iff_pairwise.1 (h.apart n (mem_walk_self n))
    exact ⟨below.2, fun c child => ih c child (h.child child), apart⟩

end Node

/-! ## §2. Rearranged values -/

namespace Json

/-- One list anywhere inside a value is permuted. -/
inductive Reordered : Json → Json → Prop
  | permuted {items items' : List Json} : items.Perm items' →
    Reordered (.array items) (.array items')
  | item (before after : List Json) {value value' : Json} : Reordered value value' →
    Reordered (.array (before ++ value :: after)) (.array (before ++ value' :: after))
  | field (before after : List (String × Json)) {key : String} {value value' : Json} :
    Reordered value value' →
    Reordered (.object (before ++ (key, value) :: after))
      (.object (before ++ (key, value') :: after))

/-- Any lists inside a value are permuted. -/
def Rearranged : Json → Json → Prop := Relation.ReflTransGen Reordered

theorem Reordered.string?_eq {x y : Json} (h : Reordered x y) : x.string? = y.string? := by
  cases h <;> rfl

end Json

/-- Texts are found as before when a value is replaced by one that is the same text or also none. -/
theorem Entries.string?_replaced (before after : Entries Json) (key : String) {value value' : Json}
    (same : value.string? = value'.string?) (wanted : String) :
    (Entries.get? (before ++ (key, value) :: after) wanted).bind Json.string?
      = (Entries.get? (before ++ (key, value') :: after) wanted).bind Json.string? := by
  induction before with
  | nil =>
    rw [List.nil_append, List.nil_append, Entries.get?_cons, Entries.get?_cons]
    split
    · exact same
    · rfl
  | cons entry rest ih =>
    rw [List.cons_append, List.cons_append, Entries.get?_cons, Entries.get?_cons]
    split
    · rfl
    · exact ih

/-! ## §3. Trees that are alike -/

namespace Node

/-- What a visit shows of a node. -/
def label (n : Node) : String × String × Option Nat := (n.nodeType, n.name, n.sourceOffset?)

/-- No two siblings have the same offset. -/
def DistinctSiblings (n : Node) : Prop := ∀ a ∈ n.walk, (a.directChildren.map sourceRank).Nodup

theorem distinctSiblings_iff {n : Node} : n.DistinctSiblings ↔
    (n.directChildren.map sourceRank).Nodup ∧ ∀ c ∈ n.directChildren, c.DistinctSiblings := by
  rw [DistinctSiblings, walk_eq, List.forall_mem_cons]
  refine and_congr_right fun _ => ?_
  simp only [List.mem_flatMap]
  exact ⟨fun h c child a there => h a ⟨c, child, there⟩,
    fun h a ⟨c, child, there⟩ => h c child a there⟩

/-- Two nodes look the same, and if siblings are distinct below the first, their walks do. -/
structure Alike (c d : Node) : Prop where
  label : c.label = d.label
  below : c.DistinctSiblings → d.DistinctSiblings ∧ c.walk.map Node.label = d.walk.map Node.label

theorem Alike.refl (c : Node) : Alike c c := ⟨rfl, fun distinct => ⟨distinct, rfl⟩⟩

theorem Alike.trans {a b c : Node} (h : Alike a b) (h' : Alike b c) : Alike a c where
  label := h.label.trans h'.label
  below distinct := by
    obtain ⟨next, first⟩ := h.below distinct
    obtain ⟨last, second⟩ := h'.below next
    exact ⟨last, first.trans second⟩

theorem Alike.sourceRank_eq {c d : Node} (h : Alike c d) : c.sourceRank = d.sourceRank := by
  have : c.sourceOffset? = d.sourceOffset? := congrArg (·.2.2) h.label
  rw [sourceRank, sourceRank, this]

theorem map_sourceRank_eq {cs ds : List Node} (h : List.Forall₂ Alike cs ds) :
    cs.map sourceRank = ds.map sourceRank := by
  rw [← List.forall₂_eq_eq_eq]
  exact List.rel_map (fun _ _ alike => alike.sourceRank_eq) h

/-- The nodes of two lists are alike, one by one, when the first list is put into another order. -/
def Matched (l l' : List Node) : Prop := ∃ mid, l.Perm mid ∧ List.Forall₂ Alike mid l'

theorem Matched.of_perm {l l' : List Node} (h : l.Perm l') : Matched l l' :=
  ⟨l', h, List.forall₂_same.2 fun c _ => .refl c⟩

theorem Matched.append {l l' m m' : List Node} (h : Matched l l') (h' : Matched m m') :
    Matched (l ++ m) (l' ++ m') := by
  obtain ⟨mid, perm, alike⟩ := h
  obtain ⟨mid', perm', alike'⟩ := h'
  exact ⟨mid ++ mid', perm.append perm', List.rel_append alike alike'⟩

/-- Lists that differ in one matched part are matched. -/
theorem Matched.around {l l' : List Node} (h : Matched l l') (before after : List Node) :
    Matched (before ++ (l ++ after)) (before ++ (l' ++ after)) :=
  (of_perm (.refl before)).append (h.append (of_perm (.refl after)))

/-- Lists of nodes with distinct offsets are equal if they have the same nodes in the order of
their offsets. -/
theorem eq_of_perm_of_ascending {l l' : List Node} (perm : l.Perm l')
    (distinct : (l.map sourceRank).Nodup)
    (ordered : l.Pairwise fun a b => a.sourceRank ≤ b.sourceRank)
    (ordered' : l'.Pairwise fun a b => a.sourceRank ≤ b.sourceRank) : l = l' := by
  refine perm.eq_of_pairwise (fun a b ha hb le ge => ?_) ordered ordered'
  exact List.inj_on_of_nodup_map distinct ha (perm.mem_iff.2 hb) (Nat.le_antisymm le ge)

/-- Sorting brings matched nodes into one order, if their offsets are distinct. -/
theorem Matched.sorted {l l' : List Node} (h : Matched l l')
    (distinct : (l.map sourceRank).Nodup) :
    List.Forall₂ Alike (l.mergeSort fun a b => a.sourceRank ≤ b.sourceRank)
      (l'.mergeSort fun a b => a.sourceRank ≤ b.sourceRank) := by
  obtain ⟨mid, perm, alike⟩ := h
  have sorting := List.mergeSort_perm l fun a b => a.sourceRank ≤ b.sourceRank
  -- the nodes of the second list in the order of the first one, sorted
  obtain ⟨w, pairs, same⟩ := List.perm_comp_forall₂ (sorting.trans perm) alike
  have ranks := map_sourceRank_eq pairs
  have ordered : w.Pairwise fun a b => a.sourceRank ≤ b.sourceRank := by
    rw [← List.pairwise_map, ← ranks, List.pairwise_map]
    exact pairwise_rank_mergeSort sourceRank l
  have sorted : w = l'.mergeSort fun a b => a.sourceRank ≤ b.sourceRank := by
    refine eq_of_perm_of_ascending (same.trans (List.mergeSort_perm l' _).symm) ?_ ordered
      (pairwise_rank_mergeSort sourceRank l')
    rw [← ranks]
    exact (sorting.map sourceRank).nodup_iff.2 distinct
  exact sorted ▸ pairs

/-- The walks through lists of nodes that are alike look the same. -/
theorem walks_alike {cs ds : List Node} (h : List.Forall₂ Alike cs ds)
    (distinct : ∀ c ∈ cs, c.DistinctSiblings) :
    (∀ d ∈ ds, d.DistinctSiblings)
      ∧ (cs.flatMap walk).map Node.label = (ds.flatMap walk).map Node.label := by
  induction h with
  | nil => exact ⟨nofun, rfl⟩
  | cons alike _ ih =>
    rw [List.forall_mem_cons] at distinct ⊢
    obtain ⟨head, same⟩ := alike.below distinct.1
    obtain ⟨rest, sames⟩ := ih distinct.2
    refine ⟨⟨head, rest⟩, ?_⟩
    rw [List.flatMap_cons, List.flatMap_cons, List.map_append, List.map_append, same, sames]

/-- The nodes in the fields of a node, field by field. -/
def held (n : Node) : List Node := n.fields.flatMap fun field => inField field.2

/-- Two nodes that look the same are alike if what they hold is matched. -/
theorem alike_of_matched {c d : Node} (label : c.label = d.label)
    (held : Matched c.held d.held) : Alike c d where
  label := label
  below distinct := by
    obtain ⟨own, inner⟩ := distinctSiblings_iff.1 distinct
    have found : (c.held.map sourceRank).Nodup :=
      ((List.mergeSort_perm _ _).map sourceRank).nodup_iff.1 own
    have children : List.Forall₂ Alike c.directChildren d.directChildren := held.sorted found
    obtain ⟨inner', walks⟩ := walks_alike children inner
    refine ⟨distinctSiblings_iff.2 ⟨map_sourceRank_eq children ▸ own, inner'⟩, ?_⟩
    rw [walk_eq c, walk_eq d, List.map_cons, List.map_cons, label, walks]

/-! ## §4. Permuting lists -/

/-- Nodes with the same texts look the same. -/
theorem label_eq {c d : Node} (same : ∀ key, c.string? key = d.string? key) :
    c.label = d.label := by
  have types : some c.nodeType = some d.nodeType := by
    have := same "nodeType"
    rwa [string?, field?, c.typed, string?, field?, d.typed] at this
  rw [label, label, Option.some.inj types, name, name, string, string, same, sourceOffset?,
    sourceOffset?, same]

/-- Whether fields are those of a node depends on their texts only. -/
theorem exists_of_texts {fields fields' : Entries Json}
    (same : ∀ key, (Entries.get? fields key).bind Json.string?
      = (Entries.get? fields' key).bind Json.string?)
    {c : Node} (h : c.fields = fields) : ∃ d : Node, d.fields = fields' ∧ c.label = d.label := by
  subst h
  have typed : (Entries.get? fields' "nodeType").bind Json.string? = some c.nodeType := by
    rw [← same, c.typed]
    rfl
  obtain ⟨value, found, text⟩ := Option.bind_eq_some_iff.1 typed
  cases Json.string?_eq_some_iff.1 text
  exact ⟨⟨fields', c.nodeType, found⟩, rfl, label_eq same⟩

theorem ofJson?_object_eq_some_iff {fields : List (String × Json)} {n : Node} :
    ofJson? (.object fields) = some n ↔ n.fields = fields := by
  constructor
  · exact fun h => Json.object.inj (toJson_of_ofJson? h)
  · rintro rfl
    exact ofJson?_toJson n

/-- A permutation of one list leaves a node alike, and the nodes of a field matched. -/
theorem matched_of_reordered {x y : Json} (h : x.Reordered y) :
    Matched (ofJson? x).toList (ofJson? y).toList ∧ Matched (inField x) (inField y) := by
  induction h with
  | permuted perm => exact ⟨.of_perm (.refl []), .of_perm (perm.filterMap ofJson?)⟩
  | item before after _ ih =>
    have split (item : Json) : inField (.array (before ++ item :: after))
        = before.filterMap ofJson? ++ ((ofJson? item).toList ++ after.filterMap ofJson?) := by
      rw [inField, List.filterMap_append, List.filterMap_cons]
      cases ofJson? item <;> rfl
    refine ⟨.of_perm (.refl []), ?_⟩
    rw [split, split]
    exact ih.1.around _ _
  | @field before after key value value' step ih =>
    -- an object is the only node in a field that holds it
    refine and_self_iff.2 (?_ : Matched (ofJson? _).toList (ofJson? _).toList)
    have texts := Entries.string?_replaced before after key step.string?_eq
    cases left : ofJson? (.object (before ++ (key, value) :: after)) with
    | none =>
      cases right : ofJson? (.object (before ++ (key, value') :: after)) with
      | none => exact .of_perm (.refl [])
      | some d =>
        obtain ⟨c, own, -⟩ := exists_of_texts (fun wanted => (texts wanted).symm)
          (ofJson?_object_eq_some_iff.1 right)
        cases left.symm.trans (ofJson?_object_eq_some_iff.2 own)
    | some c =>
      have fields := ofJson?_object_eq_some_iff.1 left
      obtain ⟨d, fields', label⟩ := exists_of_texts texts fields
      have held : Matched c.held d.held := by
        rw [Node.held, Node.held, fields, fields', List.flatMap_append, List.flatMap_append,
          List.flatMap_cons, List.flatMap_cons]
        exact ih.2.around _ _
      rw [ofJson?_object_eq_some_iff.2 fields']
      exact ⟨[c], .refl [c], .cons (alike_of_matched label held) .nil⟩

/-- A permutation of one list makes a value that is a node into one that is alike. -/
theorem exists_alike_of_reordered {n : Node} {y : Json} (h : n.toJson.Reordered y) :
    ∃ m : Node, m.toJson = y ∧ Alike n m := by
  obtain ⟨mid, perm, alike⟩ := (matched_of_reordered h).1
  rw [ofJson?_toJson, Option.toList_some, List.singleton_perm] at perm
  subst perm
  cases node : ofJson? y with
  | none => rw [node] at alike; cases alike
  | some m =>
    rw [node] at alike
    cases alike with
    | cons same _ => exact ⟨m, toJson_of_ofJson? node, same⟩

/-- However lists are permuted, a node stays alike. -/
theorem exists_alike_of_rearranged {n : Node} {y : Json} (h : n.toJson.Rearranged y) :
    ∃ m : Node, m.toJson = y ∧ Alike n m := by
  induction h with
  | refl => exact ⟨n, rfl, .refl n⟩
  | tail _ step ih =>
    obtain ⟨m, rfl, alike⟩ := ih
    obtain ⟨k, rfl, alike'⟩ := exists_alike_of_reordered step
    exact ⟨k, rfl, alike.trans alike'⟩

/-! ## §5. Walks -/

/-- A walk visits every address at which there is a node once, in the order of the tree and of the
source. If offsets follow the nesting, it is in their order; if those of siblings are distinct, it
shows the same however lists are permuted. -/
theorem walk_visited (n : Node) (canonical : n.toJson.Canonical) :
    (∃ visits, Visited n visits)
    ∧ (n.SourceNested → n.walk.Pairwise fun a b => a.sourceRank ≤ b.sourceRank)
    ∧ (n.DistinctSiblings → ∀ value, n.toJson.Rearranged value →
      ∃ m : Node, m.toJson = value ∧ m.walk.map label = n.walk.map label) := by
  refine ⟨⟨n.addresses, visited_addresses n canonical⟩, SourceNested.walk_ascends, ?_⟩
  intro distinct value rearranged
  obtain ⟨m, same, alike⟩ := exists_alike_of_rearranged rearranged
  exact ⟨m, same, (alike.below distinct).2.symm⟩

/-- A statement with nothing below it. -/
def statement (nodeType src : String) : Node where
  fields := [("nodeType", .string nodeType), ("src", .string src)]
  nodeType := nodeType
  typed := rfl

/-- A block of statements. -/
def blockOf (statements : List Node) : Node where
  fields := [("nodeType", .string "Block"), ("src", .string "0:50:0"),
    ("statements", .array (statements.map toJson))]
  nodeType := "Block"
  typed := rfl

theorem directChildren_statement (nodeType src : String) :
    (statement nodeType src).directChildren = [] := by
  simp [directChildren, statement, inField, ofJson?]

theorem walk_statement (nodeType src : String) :
    (statement nodeType src).walk = [statement nodeType src] := by
  rw [walk_eq, directChildren_statement, List.flatMap_nil]

theorem directChildren_blockOf (statements : List Node) : (blockOf statements).directChildren
    = statements.mergeSort fun a b => a.sourceRank ≤ b.sourceRank := by
  have held : (statements.map toJson).filterMap ofJson? = statements := by
    rw [List.filterMap_map, show ofJson? ∘ toJson = some from funext ofJson?_toJson,
      List.filterMap_some]
  rw [directChildren, blockOf, List.flatMap_cons, List.flatMap_cons, List.flatMap_cons, inField,
    held]
  simp [inField, ofJson?]

theorem canonical_blockOf {statements : List Node}
    (canonical : ∀ s ∈ statements, s.toJson.Canonical) : (blockOf statements).toJson.Canonical := by
  have keys : Entries.Ascending [("nodeType", ()), ("src", ()), ("statements", ())] := by decide
  rw [toJson, blockOf, Json.Canonical, Json.canonicalFields_iff]
  refine ⟨keys.of_keys rfl, ?_⟩
  simpa [Json.Canonical, Json.canonicalItems_iff] using canonical

theorem canonical_statement (nodeType src : String) :
    (statement nodeType src).toJson.Canonical := by
  have keys : Entries.Ascending [("nodeType", ()), ("src", ())] := by decide
  rw [toJson, statement, Json.Canonical]
  exact ⟨keys.of_keys rfl, trivial, trivial, trivial⟩

/-- The statements of a block are visited as the source has them, whichever is listed first. -/
theorem walk_visited_block :
    let early := statement "Return" "2:10:0"
    let late := statement "Break" "30:6:0"
    let n := blockOf [late, early]
    n.walk = [n, early, late]
    ∧ n.toJson.Canonical ∧ n.SourceNested ∧ n.DistinctSiblings
    ∧ n.toJson.Rearranged (blockOf [early, late]).toJson
    ∧ (∃ visits, Visited n visits)
    ∧ n.walk.Pairwise (fun a b => a.sourceRank ≤ b.sourceRank)
    ∧ ∃ m : Node, m.toJson = (blockOf [early, late]).toJson
      ∧ m.walk.map label = n.walk.map label := by
  intro early late n
  have top : n.sourceRank = 0 := rfl
  have first : early.sourceRank = 2 := rfl
  have last : late.sourceRank = 30 := rfl
  have children : n.directChildren = [early, late] := by
    rw [directChildren_blockOf]
    simp [List.mergeSort, first, last]
  have none : early.directChildren = [] ∧ late.directChildren = [] :=
    ⟨directChildren_statement .., directChildren_statement ..⟩
  have alone : early.walk = [early] ∧ late.walk = [late] :=
    ⟨walk_statement .., walk_statement ..⟩
  have walk : n.walk = [n, early, late] := by
    rw [walk_eq, children, List.flatMap_cons, List.flatMap_singleton, alone.1, alone.2]
    rfl
  have canonical : n.toJson.Canonical :=
    canonical_blockOf (by simp [early, late, canonical_statement])
  have nested : n.SourceNested := by
    constructor
    · simp [walk, alone, top, first, last]
    · simp [walk, children, none, RunsBefore, alone, first, last]
  have distinct : n.DistinctSiblings := by
    simp [DistinctSiblings, walk, children, none, first, last]
  have swapped : n.toJson.Rearranged (blockOf [early, late]).toJson :=
    .single (.field [_, _] [] (.permuted (.swap ..)))
  obtain ⟨visited, ascends, same⟩ := walk_visited n canonical
  exact ⟨walk, canonical, nested, distinct, swapped, visited, ascends nested,
    same distinct _ swapped⟩

end Node

end FuzzBundle
