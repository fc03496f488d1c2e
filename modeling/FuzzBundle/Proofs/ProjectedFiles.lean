/-
  FuzzBundle.Proofs.ProjectedFiles — which outputs are projected, and what the projection holds.

  A traversal does the same for every entry of a list and keeps the keys (`traverse_eq_ok_iff`). A
  projected output is therefore known file by file: it has the files of the output as its keys, and
  each unit is what its file is taken apart into (`ofOutput_eq_ok_iff`). A file can be taken apart
  exactly if it has a tree whose root is a source unit (`SourceOutput.IsUnit`).

  Main statements: `Projection.ofOutput_eq_ok_iff`, `Projection.exists_ofOutput_iff`.
-/
import Mathlib.Data.List.Forall2
import FuzzBundle.Projection.Unit

namespace FuzzBundle

/-! ## §1. Files -/

/-- The tree of a file is a source unit. -/
def SourceOutput.IsUnit (source : SourceOutput) : Prop :=
  ∃ fields, source.tree? = some (.object fields)
    ∧ Entries.get? fields "nodeType" = some (.string "SourceUnit")

namespace Projection

/-- The root of a tree is found to be a source unit by the word that says its type. -/
theorem kind_eq_sourceUnit_iff (n : Node) : n.kind = .sourceUnit ↔ n.nodeType = "SourceUnit" := by
  constructor
  · intro kind
    exact Kind.ofName_injective kind
  · intro word
    rw [Node.kind, word]
    rfl

theorem unitOf_eq_ok_iff {file : String} {source : SourceOutput} {n : Node} :
    unitOf file source = .ok n
      ↔ ∃ tree, source.tree? = some tree ∧ Node.ofJson? tree = some n ∧ n.kind = .sourceUnit := by
  unfold unitOf
  cases source.tree? with
  | none => simp
  | some tree =>
    simp only [Option.some.injEq, exists_eq_left']
    cases Node.ofJson? tree with
    | none => simp
    | some root =>
      by_cases kind : root.kind = .sourceUnit
      · simp only [kind, if_true, Except.ok.injEq, Option.some.injEq]
        constructor
        · intro same
          exact ⟨same, same ▸ kind⟩
        · intro found
          exact found.1
      · simp only [kind, if_false, reduceCtorEq, Option.some.injEq, false_iff, not_and]
        intro same
        exact same ▸ kind

theorem exists_unitOf_iff (file : String) (source : SourceOutput) :
    (∃ n, unitOf file source = .ok n) ↔ source.IsUnit := by
  simp only [unitOf_eq_ok_iff, kind_eq_sourceUnit_iff]
  constructor
  · intro found
    obtain ⟨n, tree, there, node, word⟩ := found
    rw [← Node.toJson_of_ofJson? node] at there
    exact ⟨n.fields, there, word ▸ n.typed⟩
  · intro unit
    obtain ⟨fields, there, typed⟩ := unit
    have node : Node.ofJson? (.object fields) = some ⟨fields, "SourceUnit", typed⟩ :=
      Node.ofJson?_toJson ⟨fields, "SourceUnit", typed⟩
    exact ⟨_, _, there, node, rfl⟩

theorem ofFile_eq_ok_iff {file : String} {source : SourceOutput} {unit : UnitProjection} :
    ofFile file source = .ok unit
      ↔ ∃ n, unitOf file source = .ok n ∧ unit = ofUnit (.forUnit n) n := by
  unfold ofFile
  cases unitOf file source with
  | error e => simp [Except.map]
  | ok n => simp [Except.map, eq_comm]

/-- A file can be taken apart exactly if it is a source unit. -/
theorem exists_ofFile_iff (file : String) (source : SourceOutput) :
    (∃ unit, ofFile file source = .ok unit) ↔ source.IsUnit := by
  rw [← exists_unitOf_iff file source]
  simp only [ofFile_eq_ok_iff]
  constructor
  · intro found
    obtain ⟨unit, n, root, -⟩ := found
    exact ⟨n, root⟩
  · intro found
    obtain ⟨n, root⟩ := found
    exact ⟨_, n, root, rfl⟩

/-! ## §2. Traversals -/

variable {α β ε : Type}

/-- Every entry has a result with its key. -/
theorem traverse_eq_ok_iff {f : String → α → Except ε β} {entries : List (String × α)}
    {results : List (String × β)} :
    traverse f entries = .ok results
      ↔ List.Forall₂ (fun entry result => entry.1 = result.1 ∧ f entry.1 entry.2 = .ok result.2)
          entries results := by
  induction entries generalizing results with
  | nil => simp [traverse, eq_comm]
  | cons entry rest ih =>
    obtain ⟨key, a⟩ := entry
    rw [traverse, List.forall₂_cons_left_iff]
    cases here : f key a with
    | error e => simp
    | ok b =>
      cases there : traverse f rest with
      | error e =>
        -- no list of results fits the entries that follow
        have failed : ∀ more, ¬ List.Forall₂ _ rest more := fun more fits => by
          have done := ih.2 fits
          rw [there] at done
          cases done
        simp [failed]
      | ok bs =>
        constructor
        · intro done
          cases done
          exact ⟨(key, b), bs, ⟨rfl, rfl⟩, ih.1 there, rfl⟩
        · intro fits
          obtain ⟨⟨key', b'⟩, more, ⟨sameKey, same⟩, rest, rfl⟩ := fits
          cases sameKey
          cases same
          have done := ih.2 rest
          rw [there] at done
          cases done
          rfl

theorem exists_traverse_iff {f : String → α → Except ε β} {entries : List (String × α)} :
    (∃ results, traverse f entries = .ok results)
      ↔ ∀ entry ∈ entries, ∃ b, f entry.1 entry.2 = .ok b := by
  simp only [traverse_eq_ok_iff]
  induction entries with
  | nil => simp
  | cons entry rest ih =>
    rw [List.forall_mem_cons, ← ih]
    constructor
    · intro fits
      obtain ⟨_, fits⟩ := fits
      obtain ⟨result, more, ⟨-, here⟩, there, -⟩ := List.forall₂_cons_left_iff.1 fits
      exact ⟨⟨result.2, here⟩, more, there⟩
    · intro each
      obtain ⟨⟨b, here⟩, more, there⟩ := each
      exact ⟨_, .cons (b := (entry.1, b)) ⟨rfl, here⟩ there⟩

/-! ## §3. Outputs -/

/-- The results of a traversal have the keys of its entries, in their order. -/
theorem keys_of_forall₂ {p : String × α → String × β → Prop} {entries : List (String × α)}
    {results : List (String × β)}
    (h : List.Forall₂ (fun entry result => entry.1 = result.1 ∧ p entry result) entries results) :
    results.map Prod.fst = entries.map Prod.fst := by
  induction h with
  | nil => rfl
  | cons same _ ih => rw [List.map_cons, List.map_cons, ih, same.1]

theorem exists_of_forall₂ {p : α → β → Prop} {as : List α} {bs : List β}
    (h : List.Forall₂ p as bs) {b : β} (hb : b ∈ bs) : ∃ a ∈ as, p a b := by
  induction h with
  | nil => cases hb
  | cons here _ ih =>
    rcases List.mem_cons.1 hb with same | there
    · exact ⟨_, List.mem_cons_self, same ▸ here⟩
    · obtain ⟨a, member, holds⟩ := ih there
      exact ⟨a, List.mem_cons_of_mem _ member, holds⟩

/-- Each file with the unit that it was taken apart into. -/
abbrev TakenApart : List (String × SourceOutput) → List (String × UnitProjection) → Prop :=
  List.Forall₂ fun entry unit => entry.1 = unit.1 ∧ ofFile entry.1 entry.2 = .ok unit.2

/-- **The units of a projected output, file by file.** -/
theorem ofOutput_eq_ok_iff {output : CompilerOutput} {units : Dict UnitProjection} :
    ofOutput output = .ok units ↔ TakenApart output.sources.toList units.toList := by
  rw [TakenApart, ← traverse_eq_ok_iff, ofOutput]
  cases done : traverse ofFile output.sources.toList with
  | error e => simp [Except.map]
  | ok results =>
    -- the keys of the results ascend as those of the files do, and so all results are kept
    have ascending : Entries.Ascending results :=
      output.sources.ascending.of_keys (keys_of_forall₂ (traverse_eq_ok_iff.1 done))
    have kept : (Dict.ofList results).toList = results := Entries.ofList_of_ascending ascending
    rw [Except.map, Except.ok.injEq, Except.ok.injEq, ← Dict.toList_inj, kept]

theorem keys_ofOutput {output : CompilerOutput} {units : Dict UnitProjection}
    (h : ofOutput output = .ok units) : units.keys = output.sources.keys :=
  keys_of_forall₂ (ofOutput_eq_ok_iff.1 h)

/-- **An output is projected exactly if every file is a source unit.** -/
theorem exists_ofOutput_iff {output : CompilerOutput} :
    (∃ units, ofOutput output = .ok units)
      ↔ ∀ file source, output.sources.get? file = some source → source.IsUnit := by
  have traversed : (∃ units, ofOutput output = .ok units)
      ↔ ∃ results, traverse ofFile output.sources.toList = .ok results := by
    rw [ofOutput]
    cases traverse ofFile output.sources.toList <;> simp [Except.map]
  rw [traversed, exists_traverse_iff]
  constructor
  · intro each file source there
    exact (exists_ofFile_iff file source).1 (each (file, source) (Dict.mem_toList_iff.2 there))
  · intro each entry member
    exact (exists_ofFile_iff _ _).2 (each entry.1 entry.2 (Dict.mem_toList_iff.1 member))

/-- Every unit of a projected output was taken apart from the tree of its file. -/
theorem ofFile_of_get? {output : CompilerOutput} {units : Dict UnitProjection}
    (h : ofOutput output = .ok units) {file : String} {unit : UnitProjection}
    (hu : units.get? file = some unit) :
    ∃ source, output.sources.get? file = some source ∧ ofFile file source = .ok unit := by
  obtain ⟨entry, there, same, taken⟩ :=
    exists_of_forall₂ (ofOutput_eq_ok_iff.1 h) (Dict.mem_toList_iff.2 hu)
  cases same
  exact ⟨entry.2, Dict.mem_toList_iff.1 there, taken⟩

end Projection

end FuzzBundle
