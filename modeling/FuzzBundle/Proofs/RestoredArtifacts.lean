/-
  FuzzBundle.Proofs.RestoredArtifacts — which artifacts come back as they were.

  The interfaces in an output are canonical values when it was read from a document, and so are the
  other fields that a request keeps. Assembly takes both over, and reconciliation changes neither.
  So an artifact of all contracts is restored, whatever else is in it, and an artifact of one
  contract is restored exactly if the interface of that contract cannot be mistaken; nothing but the
  interface ever comes back different.

  Main statements: `bundled_restored`, `flattened_restored_iff`.
-/
import FuzzBundle.Proofs.ArtifactReading
import FuzzBundle.Proofs.CompileOutcomes
import FuzzBundle.Proofs.Reconciled

namespace FuzzBundle

/-! ## §1. Assembled artifacts -/

/-- The interfaces of all contracts are canonical values. -/
def CompilerOutput.CanonicalInterfaces (o : CompilerOutput) : Prop :=
  ∀ file contract c, o.contracts.find? file contract = some c →
    ∀ value, c.abi? = some value → value.Canonical

theorem ContractOutput.canonical_of_decode {w : Written} {c : ContractOutput}
    (h : decode w = some c) (value : Json) (there : c.abi? = some value) : value.Canonical := by
  have h : (w.slots? ["abi", "evm"] >>= _) = some c := h
  obtain ⟨s, -, h⟩ := Option.bind_eq_some_iff.1 h
  obtain ⟨abi?, read, h⟩ := Option.bind_eq_some_iff.1 h
  obtain ⟨machine?, -, h⟩ := Option.bind_eq_some_iff.1 h
  cases h
  subst there
  rw [Slots.optional] at read
  split at read
  · cases read
  · cases read
  · obtain ⟨value', valued, same⟩ := Option.map_eq_some_iff.1 read
    cases same
    exact Json.canonical_of_value? valued

/-- An output that was read from a document has canonical interfaces. -/
theorem CompilerOutput.canonicalInterfaces_of_decode {w : Written} {o : CompilerOutput}
    (h : decode w = some o) : o.CanonicalInterfaces := by
  have h : (w.slots? ["errors", "sources", "contracts"] >>= _) = some o := h
  obtain ⟨s, -, h⟩ := Option.bind_eq_some_iff.1 h
  obtain ⟨errors, -, h⟩ := Option.bind_eq_some_iff.1 h
  obtain ⟨sources, -, h⟩ := Option.bind_eq_some_iff.1 h
  obtain ⟨contracts, read, h⟩ := Option.bind_eq_some_iff.1 h
  cases h
  intro file contract c found value there
  obtain ⟨ofFile, foundFile, foundContract⟩ := Option.bind_eq_some_iff.1 found
  rw [Slots.withDefault] at read
  split at read
  · obtain ⟨w', readFile⟩ := exists_decode_of_get? read foundFile
    obtain ⟨w'', readContract⟩ := exists_decode_of_get? readFile foundContract
    exact ContractOutput.canonical_of_decode readContract value there
  · cases read
    cases foundFile

namespace Artifact

theorem canonical_perContract {o : CompilerOutput} (h : o.CanonicalInterfaces)
    (wanted? : Option String) (p : PerContract Json)
    (there : perContract o wanted? (·.abi?.getD .null) = some p) : p.Canonical := by
  -- a contract without an interface has null for one
  have each (c : ContractOutput) (file contract : String)
      (found : o.contracts.find? file contract = some c) : (c.abi?.getD .null).Canonical := by
    cases abi : c.abi? with
    | none => trivial
    | some value => exact h file contract c found value abi
  cases wanted? with
  | none =>
    cases there
    intro file contract value found
    rw [ContractMap.find?_map] at found
    obtain ⟨c, foundContract, rfl⟩ := Option.map_eq_some_iff.1 found
    exact each c file contract foundContract
  | some wanted =>
    -- the contract that is taken stands in some file of the output
    obtain ⟨c, last, rfl⟩ := Option.map_eq_some_iff.1 there
    obtain ⟨contracts, member, found⟩ := List.mem_filterMap.1 (List.mem_of_getLast? last)
    obtain ⟨⟨file, _⟩, inside, rfl⟩ := List.mem_map.1 member
    refine each c file wanted ?_
    rw [ContractMap.find?, Dict.mem_toList_iff.1 inside]
    exact found

theorem clean_failed (error : String) : (failed error).Clean := ⟨nofun, nofun⟩

theorem eachNested_failed (error : String) : (failed error).EachNested :=
  ⟨nofun, nofun, nofun, nofun⟩

/-- The artifact of an output has its request and its interfaces from where they come. -/
theorem clean_assemble {outcome : CompileOutcome} {args : CompilerArgs}
    (canonical : ∀ o, outcome = .success o → o.CanonicalInterfaces) (kept : args.document.Kept)
    (wanted? : Option String) : (assemble outcome args wanted?).Clean := by
  rcases assemble_cases outcome args wanted? with ⟨error, same, -⟩ | ⟨o, units, rfl, -, same⟩
  · rw [same]
    exact clean_failed error
  · rw [same]
    refine ⟨fun args' there => ?_, canonical_perContract (canonical o rfl) wanted?⟩
    cases there
    exact kept

theorem eachNested_assemble (outcome : CompileOutcome) (args : CompilerArgs) :
    (assemble outcome args none).EachNested := by
  rcases assemble_cases outcome args none with ⟨error, same, -⟩ | ⟨o, units, -, -, same⟩
  · rw [same]
    exact eachNested_failed error
  · rw [same]
    constructor
    all_goals
      intro p there
      exact ⟨_, (Option.some.inj there).symm⟩

theorem singleInterface_assemble (outcome : CompileOutcome) (args : CompilerArgs)
    (wanted : String) : (assemble outcome args (some wanted)).SingleInterface := by
  rcases assemble_cases outcome args (some wanted) with ⟨error, same, -⟩ | ⟨o, units, -, -, same⟩
  · rw [same]
    exact nofun
  · rw [same]
    intro p there
    rcases perContract_wanted o wanted with ⟨-, absent⟩ | ⟨file, c, -, single⟩
    · exact nomatch (absent _).symm.trans there
    · exact ⟨_, Option.some.inj (there.symm.trans (single _))⟩

/-- What reconciliation notes on an artifact does not make it harder to read. -/
theorem clean_annotate {a : Artifact} (h : a.Clean) (targets : TargetMap)
    (candidates : List Bytecode.Candidate) (tolerance : Binary64) :
    (Reconciliation.annotate targets candidates tolerance a).Clean := by
  -- nothing but the two notes changes, and neither of them has a condition
  have others := (Reconciliation.annotated_annotate targets candidates tolerance a).others
  constructor
  · intro args there
    exact h.request args (by rw [← others]; exact there)
  · intro p there
    exact h.interfaces p (by rw [← others]; exact there)

theorem eachNested_annotate {a : Artifact} (h : a.EachNested) (targets : TargetMap)
    (candidates : List Bytecode.Candidate) (tolerance : Binary64) :
    (Reconciliation.annotate targets candidates tolerance a).EachNested := by
  have others := (Reconciliation.annotated_annotate targets candidates tolerance a).others
  rw [← others] at h
  exact ⟨h.sourceMap, h.creationCode, h.deployedCode, h.interfaces⟩

end Artifact

/-! ## §2. Outputs and requests that were read -/

/-- A request that was read from a document. -/
def InputDocument.WasRead (d : InputDocument) : Prop := ∃ w : Written, decode w = some d

/-- An output, if there is one, was read from what a worker left, and source texts may have been
laid over it. -/
def CompileOutcome.WasRead (outcome : CompileOutcome) : Prop :=
  ∀ o, outcome = .success o → ∃ (left : Content) (parsed : CompilerOutput)
    (contents : List (String × String)),
    CompilerOutput.read? left.documentText = some parsed ∧ o = parsed.overlaySources contents

theorem CompileOutcome.WasRead.canonicalInterfaces {outcome : CompileOutcome}
    (h : outcome.WasRead) (o : CompilerOutput) (success : outcome = .success o) :
    o.CanonicalInterfaces := by
  obtain ⟨left, parsed, contents, read, rfl⟩ := h o success
  obtain ⟨w, -, decoded⟩ := Option.bind_eq_some_iff.1 read
  -- only sources are laid over, so the contracts are those that were read
  rw [CompilerOutput.CanonicalInterfaces, CompilerOutput.contracts_overlaySources]
  exact CompilerOutput.canonicalInterfaces_of_decode decoded

theorem InputDocument.WasRead.kept {d : InputDocument} (h : d.WasRead) : d.Kept := by
  obtain ⟨w, read⟩ := h
  exact InputDocument.kept_of_decode read

/-! ## §3. Bundled and flattened artifacts -/

namespace Artifact

/-- An artifact is read back as it is, its fields of contracts by file and contract. -/
structure RestoredNested (a : Artifact) : Prop where
  restored : Restored a
  nested : a.EachNested

/-- Reconciliation annotates all artifacts or leaves all of them as they are. -/
theorem artifacts_reconcile {σ : Type u} (node : ChainNode σ) (fresh : Nat → String)
    (artifacts : List Artifact) (targets? : Option TargetMap) (tolerance : Binary64) (s : σ) :
    (Reconciliation.reconcile node fresh artifacts targets? tolerance s).1.artifacts = artifacts
    ∨ ∃ targets candidates,
        (Reconciliation.reconcile node fresh artifacts targets? tolerance s).1.artifacts
          = artifacts.map (Reconciliation.annotate targets candidates tolerance) := by
  unfold Reconciliation.reconcile
  dsimp only
  split
  · exact .inl rfl
  · exact .inr ⟨_, _, rfl⟩

/-- **An artifact of all contracts is read back as it was**, as it was assembled and after a
reconciliation together with any others. -/
theorem bundled_restored {σ : Type u} (node : ChainNode σ) (fresh : Nat → String)
    (before after : List Artifact) (targets? : Option TargetMap) (tolerance : Binary64) (s : σ)
    (outcome : CompileOutcome) (args : CompilerArgs) (output : outcome.WasRead)
    (request : args.document.WasRead) :
    (assemble outcome args none).RestoredNested
    ∧ ∃ b, (Reconciliation.reconcile node fresh (before ++ assemble outcome args none :: after)
          targets? tolerance s).1.artifacts[before.length]? = some b
        ∧ b.RestoredNested := by
  have clean := clean_assemble output.canonicalInterfaces request.kept none
  have nested := eachNested_assemble outcome args
  have own : (assemble outcome args none).RestoredNested :=
    ⟨clean.restored_of_eachNested nested, nested⟩
  have place : (before ++ assemble outcome args none :: after)[before.length]?
      = some (assemble outcome args none) := by simp
  refine ⟨own, ?_⟩
  rcases artifacts_reconcile node fresh (before ++ assemble outcome args none :: after) targets?
      tolerance s with same | ⟨targets, candidates, same⟩
  · exact ⟨_, by rw [same, place], own⟩
  · rw [same, List.getElem?_map, place]
    have still := eachNested_annotate nested targets candidates tolerance
    have readable := clean_annotate clean targets candidates tolerance
    exact ⟨_, rfl, readable.restored_of_eachNested still, still⟩

/-- The answer of a compiler to a file with one contract, with what it says about the contract. -/
def poolAnswer (contract : String) : String :=
  "\x7b\"contracts\":\x7b\"A.sol\":\x7b\"Pool\":" ++ contract
    ++ "\x7d\x7d,\"sources\":\x7b\"A.sol\":"
    ++ "\x7b\"ast\":\x7b\"nodeType\":\"SourceUnit\"\x7d\x7d\x7d\x7d"

/-- The output that such an answer is, for a contract with some interface or none. -/
def poolOutput (abi? : Option Json) : CompilerOutput where
  errors := []
  sources := ⟨[("A.sol", ⟨none, some (.object [("nodeType", .string "SourceUnit")]), none, none⟩)],
    by decide⟩
  contracts := ⟨[("A.sol", ⟨[("Pool", ⟨abi?, none⟩)], List.pairwise_singleton _ _⟩)],
    List.pairwise_singleton _ _⟩

theorem wasRead_poolOutput {contract : String} {abi? : Option Json}
    (h : CompilerOutput.read? (poolAnswer contract) = some (poolOutput abi?)) :
    (CompileOutcome.success (poolOutput abi?)).WasRead := by
  intro o same
  cases same
  exact ⟨.text (poolAnswer contract), _, [], h, rfl⟩

theorem read_poolAnswer_bare :
    CompilerOutput.read? (poolAnswer "\x7b\x7d") = some (poolOutput none) := by decide +kernel

theorem read_poolAnswer_interface :
    CompilerOutput.read? (poolAnswer "\x7b\"abi\":[]\x7d")
      = some (poolOutput (some (.array []))) := by
  decide +kernel

/-- The request for that file. -/
def poolArgs : CompilerArgs where
  version := "0.8.19"
  document := .ofSources (Dict.empty.insert "A.sol" (.ofContent "contract Pool \x7b\x7d")) .empty

theorem wasRead_poolArgs : poolArgs.document.WasRead :=
  ⟨.object [("language", .string "Solidity"), ("sources", .object [("A.sol", .object [
    ("content", .string "contract Pool \x7b\x7d")])])], by decide⟩

/-- A node without accounts. -/
def emptyNode : ChainNode Unit where
  accounts s := (.ok [], s)
  send _ _ s := (.error (.rejected "eth_sendTransaction" "unknown account"), s)
  trace _ s := (.error (.rejected "debug_traceTransaction" "unknown transaction"), s)

/-- A contract without an interface, which stays null among the values of all contracts. -/
theorem bundled_restored_pool :
    (assemble (.success (poolOutput none)) poolArgs none).RestoredNested
    ∧ ∃ b, (Reconciliation.reconcile emptyNode (fun _ => "0x00") (
          [failed "no tree"] ++ [assemble (.success (poolOutput none)) poolArgs none]) none
          (.ofDecimal false 1 (-1)) ()).1.artifacts[1]? = some b ∧ b.RestoredNested :=
  bundled_restored emptyNode (fun _ => "0x00") [failed "no tree"] [] none
    (.ofDecimal false 1 (-1)) () (.success (poolOutput none)) poolArgs
    (wasRead_poolOutput read_poolAnswer_bare) wasRead_poolArgs

/-- **An artifact of one contract is read back as it was exactly if its interface cannot be
mistaken.** Apart from the interface it always is, and an interface that can be mistaken comes back
as none or as values for all contracts. -/
theorem flattened_restored_iff (o : CompilerOutput) (args : CompilerArgs) (wanted : String)
    (output : o.CanonicalInterfaces) (request : args.document.WasRead) :
    (∃ abi?, (Recorded.value? (assemble (.success o) args (some wanted))).bind Recorded.ofValue?
          = some { assemble (.success o) args (some wanted) with abi? := abi? }
        ∧ ∀ value, (assemble (.success o) args (some wanted)).abi? = some (.single value) →
          value.Mistakable → abi? = none ∨ ∃ m, abi? = some (.nested m))
    ∧ (Restored (assemble (.success o) args (some wanted)) ↔ ∀ value,
        (assemble (.success o) args (some wanted)).abi? = some (.single value) →
          ¬ value.Mistakable) := by
  have canonical : ∀ o', CompileOutcome.success o = .success o' → o'.CanonicalInterfaces := by
    intro o' same
    cases same
    exact output
  have clean := clean_assemble canonical request.kept (some wanted)
  refine ⟨⟨_, ofValue?_value clean, ?_⟩,
    clean.restored_iff_not_mistakable (singleInterface_assemble _ args wanted)⟩
  intro value there mistaken
  rw [there]
  exact PerContract.reread_of_mistakable (clean.interfaces _ there) mistaken

theorem abi?_assemble_pool (abi? : Option Json) :
    (assemble (.success (poolOutput abi?)) poolArgs (some "Pool")).abi?
      = some (.single (abi?.getD .null)) := rfl

/-- An interface that is a list cannot be mistaken. -/
theorem flattened_restored_iff_pool :
    Restored (assemble (.success (poolOutput (some (.array [])))) poolArgs (some "Pool")) := by
  have output := wasRead_poolOutput read_poolAnswer_interface
  refine (flattened_restored_iff _ poolArgs "Pool" (output.canonicalInterfaces _ rfl)
    wasRead_poolArgs).2.2 fun value there mistaken => ?_
  rw [abi?_assemble_pool] at there
  cases there
  rcases mistaken with null | ⟨fields, object, -⟩
  · cases null
  · cases object

/-- **A flattened artifact is not always read back as it was.** A contract without an interface has
null for one, and this is read as if there were no field. -/
theorem flattened_not_always_restored :
    ¬ ∀ (o : CompilerOutput) (args : CompilerArgs) (wanted : String),
      (CompileOutcome.success o).WasRead → args.document.WasRead →
        Restored (assemble (.success o) args (some wanted)) := by
  intro always
  have output := wasRead_poolOutput read_poolAnswer_bare
  have restored := always (poolOutput none) poolArgs "Pool" output wasRead_poolArgs
  have clean := clean_assemble output.canonicalInterfaces wasRead_poolArgs.kept (some "Pool")
  rw [clean.restored_iff_not_mistakable (singleInterface_assemble _ _ _)] at restored
  exact restored .null (abi?_assemble_pool none) (.inl rfl)

end Artifact

end FuzzBundle
