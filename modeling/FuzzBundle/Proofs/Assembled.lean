/-
  FuzzBundle.Proofs.Assembled — what the artifact of a compilation is filled with.

  Three things can fail. If the compilation or the projection does, the artifact says why and has
  nothing else. If only the extraction does, the invariants are left out and every other field is
  what it would have been (`Filled`).

  The four fields of contracts are filled one after the other by the same look at the output
  (`EachField`). So either all of them have a value for every contract of the output (`HoldsEach`),
  or all of them have the value of one contract: the one in the last of the files that declare the
  wanted name (`Taken`).

  Main statement: `assemble_assembled`.
-/
import FuzzBundle.Artifact.Assembly
import FuzzBundle.Proofs.ProjectedFiles

namespace FuzzBundle

/-! ## §1. Contracts of an output -/

/-- A file declares the contract that is taken for a name, and no later file declares one. -/
structure CompilerOutput.Taken (o : CompilerOutput) (wanted file : String) (c : ContractOutput) :
    Prop where
  declared : o.contracts.find? file wanted = some c
  last : ∀ other c', o.contracts.find? other wanted = some c' → other ≤ file

/-- No file declares a contract of this name. -/
def CompilerOutput.Undeclared (o : CompilerOutput) (wanted : String) : Prop :=
  ∀ file, o.contracts.find? file wanted = none

namespace ContractMap

variable {α : Type}

/-- A value that stands last among the values of a name stands in the last file that has one. -/
theorem exists_of_getLast? {m : ContractMap α} {name : String} {a : α}
    (h : (m.values.filterMap (·.get? name)).getLast? = some a) :
    ∃ file, m.find? file name = some a
      ∧ ∀ other a', m.find? other name = some a' → other ≤ file := by
  obtain ⟨front, split⟩ := List.getLast?_eq_some_iff.1 h
  -- the files are split at the one that the value comes from; those after it have none
  rw [Dict.values, List.filterMap_map, List.filterMap_eq_append_iff] at split
  obtain ⟨before, rest, entries, -, tail⟩ := split
  obtain ⟨silent, ⟨file, own⟩, after, rfl, -, here, quiet⟩ := List.filterMap_eq_cons_iff.1 tail
  rw [← List.append_assoc] at entries
  have ascending : Entries.Ascending (before ++ silent ++ (file, own) :: after) :=
    entries ▸ m.ascending
  have there (other : String) (values : Dict α) :
      m.get? other = some values ↔ (other, values) ∈ before ++ silent ++ (file, own) :: after := by
    rw [← Dict.mem_toList_iff, Dict.toList, entries]
  refine ⟨file, ?_, ?_⟩
  · rw [find?, (there file own).2 (by simp)]
    exact here
  · intro other a' found
    obtain ⟨values, member, value⟩ := Option.bind_eq_some_iff.1 found
    rw [there, List.mem_append, List.mem_cons] at member
    rcases member with earlier | same | later
    · exact Std.le_of_lt (ascending.around.1 _ earlier)
    · cases same
      exact Std.le_refl file
    · -- a file after this one has no value of the name
      have none := List.filterMap_eq_nil_iff.1 quiet _ later
      rw [Function.comp_apply, value] at none
      cases none

theorem find?_eq_none_of_getLast? {m : ContractMap α} {name : String}
    (h : (m.values.filterMap (·.get? name)).getLast? = none) (file : String) :
    m.find? file name = none := by
  rw [List.getLast?_eq_none_iff, List.filterMap_eq_nil_iff] at h
  rw [find?]
  cases there : m.get? file with
  | none => rfl
  | some values => exact h values (List.mem_map_of_mem (Dict.mem_toList_iff.2 there))

end ContractMap

/-! ## §2. Fields of contracts -/

namespace Artifact

/-- The four fields of contracts have a property, each with what it selects of a contract. -/
structure EachField (a : Artifact)
    (P : {α : Type} → Option (PerContract α) → (ContractOutput → α) → Prop) : Prop where
  sourceMap : P a.sourceMap? (·.deployedSourceMap?.getD "")
  creationCode : P a.creationCode? (·.creationCode?.getD "")
  deployedCode : P a.deployedCode? (·.deployedCode?.getD "")
  interfaces : P a.abi? (·.abi?.getD .null)

/-- A field has the values of all contracts of an output, by the same files and the same names. -/
def HoldsEach (o : CompilerOutput) {α : Type} (field? : Option (PerContract α))
    (select : ContractOutput → α) : Prop :=
  ∃ values, field? = some (.nested values) ∧ values.keys = o.contracts.keys
    ∧ ∀ file contracts, o.contracts.get? file = some contracts →
      ∃ own, values.get? file = some own ∧ own.keys = contracts.keys
        ∧ ∀ name c, contracts.get? name = some c → own.get? name = some (select c)

theorem holdsEach_perContract (o : CompilerOutput) {α : Type} (select : ContractOutput → α) :
    HoldsEach o (perContract o none select) select := by
  refine ⟨_, rfl, Dict.keys_map _ _, ?_⟩
  intro file contracts there
  refine ⟨contracts.map fun _ => select, ?_, Dict.keys_map _ _, ?_⟩
  · rw [Dict.get?_map, there]
    rfl
  · intro name c found
    rw [Dict.get?_map, found]
    rfl

/-- A wanted name is looked for in the same way whatever is selected of the contract. -/
theorem perContract_wanted (o : CompilerOutput) (wanted : String) :
    (o.Undeclared wanted ∧ ∀ {α : Type} (select : ContractOutput → α),
        perContract o (some wanted) select = none)
    ∨ ∃ file c, o.Taken wanted file c ∧ ∀ {α : Type} (select : ContractOutput → α),
        perContract o (some wanted) select = some (.single (select c)) := by
  cases last : (o.contracts.values.filterMap (·.get? wanted)).getLast? with
  | none =>
    -- the look-up does not depend on what is selected, so one case decides for every field
    refine .inl ⟨ContractMap.find?_eq_none_of_getLast? last, fun select => ?_⟩
    rw [perContract, last]
    rfl
  | some c =>
    obtain ⟨file, declared, latest⟩ := ContractMap.exists_of_getLast? last
    refine .inr ⟨file, c, ⟨declared, latest⟩, fun select => ?_⟩
    rw [perContract, last]
    rfl

/-- A file with a pool that is created by some code. -/
def poolFile (code : String) : Dict ContractOutput :=
  ⟨[("Pool", ⟨none, some ⟨some ⟨some code, none⟩, none⟩⟩)], List.pairwise_singleton _ _⟩

/-- Of two files with a pool the last one gives its code. -/
example :
    perContract ⟨[], .empty, ⟨[("a.sol", poolFile "60aa"), ("b.sol", poolFile "60bb")], by decide⟩⟩
      (some "Pool") (·.creationCode?.getD "") = some (.single "60bb") := by decide

/-! ## §3. The artifact -/

/-- What stands in the fields of contracts, with or without a wanted name. -/
def ContractFields (o : CompilerOutput) (a : Artifact) : Option String → Prop
  | none => a.EachField (HoldsEach o)
  | some wanted =>
    (o.Undeclared wanted ∧ a.EachField fun field? _ => field? = none)
    ∨ ∃ file c, o.Taken wanted file c
      ∧ a.EachField fun field? select => field? = some (.single (select c))

theorem contractFields_ofOutput (o : CompilerOutput) (units : Dict UnitProjection)
    (args : CompilerArgs) (wanted? : Option String) :
    ContractFields o (ofOutput o units args wanted?) wanted? := by
  cases wanted? with
  | none => exact ⟨holdsEach_perContract o _, holdsEach_perContract o _,
      holdsEach_perContract o _, holdsEach_perContract o _⟩
  | some wanted =>
    rcases perContract_wanted o wanted with ⟨undeclared, absent⟩ | ⟨file, c, taken, single⟩
    · exact .inl ⟨undeclared, absent _, absent _, absent _, absent _⟩
    · exact .inr ⟨file, c, taken, single _, single _, single _, single _⟩

/-- An artifact is filled from an output. Only its invariants depend on the extraction. -/
structure Filled (o : CompilerOutput) (args : CompilerArgs) (wanted? : Option String)
    (a : Artifact) : Prop where
  error : a.error? = none
  remappings : a.remappings? = some args.document.settings.remappings
  request : a.args? = some args
  units : ∃ units, Projection.ofOutput o = .ok units ∧ a.projections? = some units
    ∧ units.keys = o.sources.keys
  sources : ∃ records, a.sources? = some records ∧ records.keys = o.sources.keys
    ∧ ∀ file source, o.sources.get? file = some source →
      records.get? file = some ⟨source.id?, source.source?⟩
  found : ∀ invariants, Invariant.ofOutput o = .ok invariants → a.invariants? = some invariants
  notFound : ∀ e, Invariant.ofOutput o = .error e → a.invariants? = none
  contracts : ContractFields o a wanted?
  addresses : a.addresses? = none
  unresolved : a.unresolved? = none

theorem filled_ofOutput {o : CompilerOutput} {units : Dict UnitProjection}
    (h : Projection.ofOutput o = .ok units) (args : CompilerArgs) (wanted? : Option String) :
    Filled o args wanted? (ofOutput o units args wanted?) where
  error := rfl
  remappings := rfl
  request := rfl
  units := ⟨units, h, rfl, Projection.keys_ofOutput h⟩
  sources := by
    refine ⟨sourceRecords o, rfl, Dict.keys_map _ _, ?_⟩
    intro file source there
    rw [sourceRecords, Dict.get?_map, there]
    rfl
  found invariants extracted := by
    show (Invariant.ofOutput o).toOption = some invariants
    rw [extracted]
    rfl
  notFound e failed := by
    show (Invariant.ofOutput o).toOption = none
    rw [failed]
    rfl
  contracts := contractFields_ofOutput o units args wanted?
  addresses := rfl
  unresolved := rfl

/-! ## §4. Assembly -/

/-- An assembly fails with an error and nothing else, or gives the artifact of a projected
output. -/
theorem assemble_cases (outcome : CompileOutcome) (args : CompilerArgs) (wanted? : Option String) :
    (∃ error, assemble outcome args wanted? = failed error
      ∧ ∀ o units, outcome = .success o → Projection.ofOutput o ≠ .ok units)
    ∨ ∃ o units, outcome = .success o ∧ Projection.ofOutput o = .ok units
      ∧ assemble outcome args wanted? = ofOutput o units args wanted? := by
  cases outcome with
  | failure f => exact .inl ⟨f.message, rfl, nofun⟩
  | success o =>
    cases projected : Projection.ofOutput o with
    | error e =>
      refine .inl ⟨e.message, by rw [assemble, projected], ?_⟩
      intro o' units same
      cases same
      rw [projected]
      exact nofun
    | ok units => exact .inr ⟨o, units, rfl, projected, by rw [assemble, projected]⟩

/-- What an assembled artifact is: filled from an output whose files are all source units, or else
nothing but an error. -/
structure Assembled (outcome : CompileOutcome) (args : CompilerArgs) (wanted? : Option String)
    (a : Artifact) : Prop where
  success_iff : a.success = true ↔ ∃ o, outcome = .success o
    ∧ ∀ file source, o.sources.get? file = some source → source.IsUnit
  failure : a.success = false → ∃ error, a = { success := false, error? := some error }
  filled : ∀ o, outcome = .success o → a.success = true → Filled o args wanted? a

/-- **An artifact is filled as a whole or not at all, and its fields of contracts agree.** -/
theorem assemble_assembled (outcome : CompileOutcome) (args : CompilerArgs)
    (wanted? : Option String) :
    Assembled outcome args wanted? (assemble outcome args wanted?) := by
  rcases assemble_cases outcome args wanted? with
    ⟨error, same, unprojected⟩ | ⟨o, units, rfl, projected, same⟩
  · rw [same]
    refine ⟨iff_of_false nofun fun usable => ?_, fun _ => ⟨error, rfl⟩, nofun⟩
    -- an output of source units would have been projected
    obtain ⟨o, success, eachUnit⟩ := usable
    obtain ⟨units, projected⟩ := Projection.exists_ofOutput_iff.2 eachUnit
    exact unprojected o units success projected
  · rw [same]
    have eachUnit := Projection.exists_ofOutput_iff.1 ⟨units, projected⟩
    refine ⟨iff_of_true rfl ⟨o, rfl, eachUnit⟩, nofun, fun o' success _ => ?_⟩
    cases success
    exact filled_ofOutput projected args wanted?

end Artifact

end FuzzBundle
