/-
  FuzzBundle.Proofs.Agreement — projections and extractions see the same contracts and functions.

  Both go through the trees of an output, each in its own way. A contract without a name is shown
  with an empty one by a projection, and it ends an extraction. So the first file with such a
  contract can be read off the projection (`FirstUnnamed`), and it is the one that the extraction
  reports. If there is none, the extraction extends its state by the marks of all files, and the
  marks that stand for properties are the names that the projection shows: the walk through a
  function never finds one (`property?_of_markOf?`).

  The run over the files is told from the units that they were taken apart into, one step after the
  other (`visitFile_eq`, `foldlM_visitFile`).

  Main statement: `ofOutput_agrees`.
-/
import FuzzBundle.Proofs.Extraction
import FuzzBundle.Proofs.ProjectedFiles

namespace FuzzBundle

/-! ## §1. What a projection shows -/

/-- The harness and the libraries of instrumentation are not searched for properties. -/
def ContractProjection.Searched (c : ContractProjection) : Prop :=
  c.name ≠ "FuzzLand" ∧ ¬ "__ScribbleUtilsLib".toList <+: c.name.toList

instance (c : ContractProjection) : Decidable c.Searched := inferInstanceAs (Decidable (_ ∧ _))

/-- Whether a function of this name is a property. -/
def NamesProperty (name : String) : Prop := "echidna_".toList <+: name.toList

instance (name : String) : Decidable (NamesProperty name) := inferInstanceAs (Decidable (_ <+: _))

/-- The names of the functions of a contract that are properties. -/
def ContractProjection.properties (c : ContractProjection) : List String :=
  if c.Searched then (c.functions.map (·.name)).filter (NamesProperty ·) else []

/-- The properties of a unit, contract by contract. -/
def UnitProjection.properties (u : UnitProjection) : List String :=
  u.contracts.flatMap ContractProjection.properties

/-- A contract of the unit has no name. -/
def UnitProjection.HasUnnamed (u : UnitProjection) : Prop := ∃ c ∈ u.contracts, c.name = ""

instance (u : UnitProjection) : Decidable u.HasUnnamed :=
  inferInstanceAs (Decidable (∃ c ∈ u.contracts, c.name = ""))

/-- A file has a contract without a name, and no earlier file has one. -/
structure FirstUnnamed (units : Dict UnitProjection) (file : String) : Prop where
  unnamed : ∃ u, units.get? file = some u ∧ u.HasUnnamed
  first : ∀ other u, units.get? other = some u → u.HasUnnamed → file ≤ other

/-- The first unit in the order of files that has a contract without a name. -/
def firstUnnamed? (units : List (String × UnitProjection)) : Option (String × UnitProjection) :=
  units.find? (·.2.HasUnnamed)

theorem firstUnnamed_of_eq_some {units : Dict UnitProjection} {file : String} {u : UnitProjection}
    (h : firstUnnamed? units.toList = some (file, u)) : FirstUnnamed units file := by
  obtain ⟨unnamed, before, after, entries, named⟩ := List.find?_eq_some_iff_append.1 h
  have there : (file, u) ∈ units.toList := by simp [entries]
  refine ⟨⟨u, Dict.mem_toList_iff.1 there, of_decide_eq_true unnamed⟩, ?_⟩
  intro other v found has
  have member := Dict.mem_toList_iff.2 found
  have ascending : Entries.Ascending (before ++ (file, u) :: after) := entries ▸ units.ascending
  -- a file with such a contract is none of those that the search passed over
  rw [entries, List.mem_append, List.mem_cons] at member
  rcases member with earlier | same | later
  · have without := named _ earlier
    simp [has] at without
  · cases same
    exact Std.le_refl file
  · exact Std.le_of_lt (ascending.around.2 _ later)

theorem firstUnnamed?_eq_none_iff {units : Dict UnitProjection} :
    firstUnnamed? units.toList = none
      ↔ ∀ file u, units.get? file = some u → ¬ u.HasUnnamed := by
  rw [firstUnnamed?, List.find?_eq_none]
  constructor
  · intro none file u found
    simpa using none (file, u) (Dict.mem_toList_iff.2 found)
  · intro none entry member
    simpa using none entry.1 entry.2 (Dict.mem_toList_iff.1 member)

/-! ## §2. Marks of properties -/

/-- The name of a property. -/
def Mark.property? : Mark → Option String
  | .echidna name => some name
  | _ => none

/-- The properties among the invariants of some marks. -/
theorem properties_numberedFrom (k : Nat) (marks : List Mark) :
    ((numberedFrom k marks).filter (·.kind = .echidna)).map (·.name)
      = marks.filterMap Mark.property? := by
  induction marks generalizing k with
  | nil => rfl
  | cons mark marks ih =>
    rw [numberedFrom_cons, List.filter_cons, List.filterMap_cons]
    cases mark <;> simp [Mark.invariant, Mark.bugNumbered, Mark.property?, ih]

/-- No node declares a property. -/
theorem property?_of_markOf? {n : Node} {mark : Mark} (h : markOf? n = some mark) :
    mark.property? = none := by
  cases (markOf?_eq_some_iff n mark).1 h <;> rfl

/-- A function is a property by its name alone. -/
theorem properties_marksOfFunction (function : Node) :
    (marksOfFunction function).filterMap Mark.property?
      = [function.name].filter (NamesProperty ·) := by
  have walk : (function.walk.filterMap markOf?).filterMap Mark.property? = [] := by
    rw [List.filterMap_eq_nil_iff]
    intro mark member
    obtain ⟨n, -, declared⟩ := List.mem_filterMap.1 member
    exact property?_of_markOf? declared
  -- what is left is the mark for the name, if there is one
  rw [marksOfFunction, List.filterMap_append, walk, List.append_nil]
  by_cases name : NamesProperty function.name
  · rw [if_pos (show "echidna_".toList <+: function.name.toList from name)]
    simp [name, Mark.property?]
  · rw [if_neg (show ¬ "echidna_".toList <+: function.name.toList from name)]
    simp [name]

/-- The marks of a contract are the properties that its projection shows, among others. -/
theorem properties_marksOfContract (w : Writer) (contract : Node) :
    (marksOfContract contract).filterMap Mark.property?
      = (Projection.ofContract w contract).properties := by
  have names : (Projection.ofContract w contract).functions.map (·.name)
      = (contract.membersOf .functionDefinition).map (·.name) := List.map_map
  -- the projection keeps the name of the contract, by which both decide
  have searched : (Projection.ofContract w contract).Searched ↔ Examined contract := Iff.rfl
  rw [marksOfContract, ContractProjection.properties, names]
  by_cases examined : Examined contract
  · rw [if_pos examined, if_pos (searched.2 examined), List.filterMap_flatMap,
      ← List.flatMap_singleton' ((contract.membersOf _).map _), List.filter_flatMap,
      List.flatMap_map]
    exact congrArg (List.flatMap · _) (funext properties_marksOfFunction)
  · rw [if_neg examined, if_neg fun holds => examined (searched.1 holds)]
    rfl

/-! ## §3. One file -/

namespace Extraction

theorem visitContract_eq (file : String) (e : Extraction) (contract : Node) :
    e.visitContract file contract
      = if contract.name = "" then .error (.unnamedContract file)
        else .ok (e.extend (marksOfContract contract)) := by
  split
  · next unnamed => rw [visitContract, if_pos unnamed]
  · next named =>
    cases visited : e.visitContract file contract with
    | ok e' => rw [visitContract_eq_ok visited]
    | error err =>
      -- a missing name is the only error
      rw [visitContract, if_neg named] at visited
      split at visited <;> cases visited

/-- The contracts of a file, up to the first that has no name. -/
theorem foldlM_visitContract (file : String) (contracts : List Node) (e : Extraction) :
    contracts.foldlM (visitContract file) e
      = if ∃ c ∈ contracts, c.name = "" then .error (.unnamedContract file)
        else .ok (e.extend (contracts.flatMap marksOfContract)) := by
  induction contracts generalizing e with
  | nil => simp [extend_nil, pure, Except.pure]
  | cons contract rest ih =>
    rw [List.foldlM_cons, visitContract_eq]
    by_cases unnamed : contract.name = ""
    · rw [if_pos unnamed, if_pos ⟨contract, List.mem_cons_self, unnamed⟩]
      rfl
    · rw [if_neg unnamed, List.flatMap_cons, extend_append]
      simp only [List.exists_mem_cons_iff, unnamed, false_or]
      exact ih (e.extend (marksOfContract contract))

/-- **A file is visited as its projection says.** -/
theorem visitFile_eq {file : String} {source : SourceOutput} {u : UnitProjection}
    (h : Projection.ofFile file source = .ok u) (e : Extraction) :
    e.visitFile (file, source)
      = if u.HasUnnamed then .error (.unnamedContract file)
        else .ok (e.extend (marksOfFile source)) := by
  obtain ⟨n, root, rfl⟩ := Projection.ofFile_eq_ok_iff.1 h
  obtain ⟨tree, there, node, -⟩ := Projection.unitOf_eq_ok_iff.1 root
  have unnamed : (Projection.ofUnit (.forUnit n) n).HasUnnamed
      ↔ ∃ c ∈ n.membersOf .contractDefinition, c.name = "" := by
    simp [UnitProjection.HasUnnamed, Projection.ofUnit, Projection.ofContract]
  -- the tree that was taken apart is the one that is visited
  simp only [visitFile, marksOfFile, there, Option.bind_some, node, unnamed]
  exact foldlM_visitContract file _ e

end Extraction

theorem properties_marksOfFile {file : String} {source : SourceOutput} {u : UnitProjection}
    (h : Projection.ofFile file source = .ok u) :
    (marksOfFile source).filterMap Mark.property? = u.properties := by
  obtain ⟨n, root, rfl⟩ := Projection.ofFile_eq_ok_iff.1 h
  obtain ⟨tree, there, node, -⟩ := Projection.unitOf_eq_ok_iff.1 root
  have contracts : (Projection.ofUnit (.forUnit n) n).properties
      = (n.membersOf .contractDefinition).flatMap fun c =>
          (Projection.ofContract (.forUnit n) c).properties := List.flatMap_map _ _ _
  simp only [marksOfFile, there, Option.bind_some, node, List.filterMap_flatMap, contracts,
    properties_marksOfContract (.forUnit n)]

/-! ## §4. All files -/

/-- **The files are visited up to the first that has a contract without a name.** -/
theorem Extraction.foldlM_visitFile {entries : List (String × SourceOutput)}
    {units : List (String × UnitProjection)} (h : Projection.TakenApart entries units)
    (e : Extraction) :
    entries.foldlM visitFile e
      = match firstUnnamed? units with
        | some (file, _) => .error (.unnamedContract file)
        | none => .ok (e.extend (entries.flatMap fun entry => marksOfFile entry.2)) := by
  induction h generalizing e with
  | nil =>
    rw [List.flatMap_nil, extend_nil]
    rfl
  | @cons entry unit entries units here _ ih =>
    obtain ⟨same, taken⟩ := here
    rw [List.foldlM_cons, visitFile_eq taken, firstUnnamed?, List.find?_cons]
    by_cases unnamed : unit.2.HasUnnamed
    · -- the run ends here, and so does the search
      simp only [unnamed, if_true, decide_true, same]
      rfl
    · simp only [unnamed, if_false, decide_false, List.flatMap_cons, extend_append]
      exact ih (e.extend (marksOfFile entry.2))

theorem properties_marksOf {entries : List (String × SourceOutput)}
    {units : List (String × UnitProjection)} (h : Projection.TakenApart entries units) :
    (entries.flatMap fun entry => marksOfFile entry.2).filterMap Mark.property?
      = units.flatMap fun unit => unit.2.properties := by
  induction h with
  | nil => rfl
  | cons here _ ih =>
    rw [List.flatMap_cons, List.filterMap_append, ih, properties_marksOfFile here.2,
      List.flatMap_cons]

/-- The extraction of a projected output. -/
theorem ofOutput_eq_of_projected {output : CompilerOutput} {units : Dict UnitProjection}
    (h : Projection.ofOutput output = .ok units) :
    Invariant.ofOutput output
      = match firstUnnamed? units.toList with
        | some (file, _) => .error (.unnamedContract file)
        | none => .ok (numbered (marksOf output)) := by
  rw [Invariant.ofOutput, Extraction.foldlM_visitFile (Projection.ofOutput_eq_ok_iff.1 h)]
  cases firstUnnamed? units.toList <;> rfl

/-- **Projection and extraction agree on every output that is projected.** The extraction fails
exactly if a contract is shown without a name, and reports the first file that has one. Otherwise
the properties it finds are the functions whose names say so, files, contracts and functions in the
order in which they are shown. -/
theorem ofOutput_agrees (output : CompilerOutput) (units : Dict UnitProjection)
    (h : Projection.ofOutput output = .ok units) :
    ((∃ e, Invariant.ofOutput output = .error e)
        ↔ ∃ file u, units.get? file = some u ∧ ∃ c ∈ u.contracts, c.name = "")
    ∧ (∀ e, Invariant.ofOutput output = .error e →
        ∃ file, e = .unnamedContract file ∧ FirstUnnamed units file)
    ∧ ∀ found, Invariant.ofOutput output = .ok found →
        (found.filter (·.kind = .echidna)).map (·.name)
          = units.toList.flatMap fun unit => unit.2.properties := by
  have run := ofOutput_eq_of_projected h
  cases first : firstUnnamed? units.toList with
  | some entry =>
    obtain ⟨file, u⟩ := entry
    rw [first] at run
    have unnamed : FirstUnnamed units file := firstUnnamed_of_eq_some first
    refine ⟨iff_of_true ⟨_, run⟩ ⟨file, unnamed.unnamed⟩, ?_, ?_⟩
    · intro e failed
      rw [run] at failed
      cases failed
      exact ⟨file, rfl, unnamed⟩
    · intro found extracted
      rw [run] at extracted
      cases extracted
  | none =>
    rw [first] at run
    refine ⟨iff_of_false ?_ ?_, ?_, ?_⟩
    · intro failed
      obtain ⟨e, failed⟩ := failed
      rw [run] at failed
      cases failed
    · intro shown
      obtain ⟨file, u, there, unnamed⟩ := shown
      exact firstUnnamed?_eq_none_iff.1 first file u there unnamed
    · intro e failed
      rw [run] at failed
      cases failed
    · intro found extracted
      rw [run] at extracted
      cases extracted
      rw [numbered, properties_numberedFrom]
      exact properties_marksOf (Projection.ofOutput_eq_ok_iff.1 h)

/-- A property in the first file, and contracts without a name in the two that follow. -/
def namelessFiles : CompilerOutput where
  errors := []
  sources := ⟨[("a.sol", callingFile "Pool" "echidna_solvent" "bug"),
    ("b.sol", callingFile "" "swap" "bug"), ("c.sol", callingFile "" "mint" "bug")], by decide⟩
  contracts := Dict.empty

/-- The property is found as it is shown, and with the other files the second one is reported. -/
theorem ofOutput_agrees_pools :
    (∃ units found, Projection.ofOutput twoBugs = .ok units
      ∧ Invariant.ofOutput twoBugs = .ok found
      ∧ (found.filter (·.kind = .echidna)).map (·.name) = ["echidna_f"]
      ∧ units.toList.flatMap (fun unit => unit.2.properties) = ["echidna_f"])
    ∧ ∃ units, Projection.ofOutput namelessFiles = .ok units
      ∧ Invariant.ofOutput namelessFiles = .error (.unnamedContract "b.sol")
      ∧ FirstUnnamed units "b.sol" := by
  constructor
  · have ok : (Projection.ofOutput twoBugs).isOk = true := by decide +kernel
    have extracted : Invariant.ofOutput twoBugs
        = .ok [⟨"echidna_f", .echidna⟩, ⟨"Unnamed Bug 0", .bug⟩, ⟨"Unnamed Bug 1", .bug⟩] := by
      decide +kernel
    cases projected : Projection.ofOutput twoBugs with
    | error e => rw [projected] at ok; cases ok
    | ok units =>
      have shown := (ofOutput_agrees twoBugs units projected).2.2 _ extracted
      exact ⟨units, _, rfl, extracted, by decide, shown ▸ by decide⟩
  · have ok : (Projection.ofOutput namelessFiles).isOk = true := by decide +kernel
    have failed : Invariant.ofOutput namelessFiles = .error (.unnamedContract "b.sol") := by
      decide +kernel
    cases projected : Projection.ofOutput namelessFiles with
    | error e => rw [projected] at ok; cases ok
    | ok units =>
      obtain ⟨file, same, first⟩ := (ofOutput_agrees namelessFiles units projected).2.1 _ failed
      cases same
      exact ⟨units, rfl, failed, first⟩

end FuzzBundle
