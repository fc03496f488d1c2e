/-
  FuzzBundle.Proofs.Reconciled — what reconciliation notes on artifacts.

  Matching an artifact makes one call for each target with code (`matchArtifact_eq_run`), so what is
  held for a contract is what its code resolves to (`find?_matchArtifact`). A code resolves to the
  first of the nearest candidates, if it has bytes and any candidate counts for these
  (`earliestNearest_of_address?`, `address?_resolve_isSome`). The two readings of the map are what
  is noted.

  Main statement: `reconcileArtifacts_annotated`.
-/
import Mathlib.Data.List.Forall2
import FuzzBundle.Deployment.Reconciliation
import FuzzBundle.Proofs.ResolutionHistory

namespace FuzzBundle.Reconciliation

open Bytecode

/-! ## §1. What a code resolves to -/

/-- Some candidate counts for the bytes of a code. -/
def Matchable (candidates : List Candidate) (tolerance : Binary64) (code : String) : Prop :=
  ∃ bytes, Bytecode.decode code = .ok bytes ∧ bytes ≠ [] ∧
    ∃ c ∈ candidates, withinLengthGate bytes.length c.code.length tolerance = true

/-- A candidate is the earliest of those that are nearest to the bytes of a code, among the ones
that count for these. -/
def EarliestNearest (candidates : List Candidate) (tolerance : Binary64) (code : String)
    (c : Candidate) : Prop :=
  ∃ bytes, Bytecode.decode code = .ok bytes ∧ bytes ≠ [] ∧
    ∃ i, FirstLeast (distanceTo bytes) (gated bytes candidates tolerance) i c

theorem gated_eq_nil_iff (target : List UInt8) (candidates : List Candidate)
    (tolerance : Binary64) :
    gated target candidates tolerance = []
      ↔ ¬∃ c ∈ candidates, withinLengthGate target.length c.code.length tolerance = true := by
  rw [gated, List.filter_eq_nil_iff]
  push Not
  rfl

/-- A code without bytes, and one that is not the text of any, is nowhere. -/
theorem resolve_of_no_bytes {candidates : List Candidate} {tolerance : Binary64} {code : String}
    (h : ∀ bytes, Bytecode.decode code = .ok bytes → bytes = []) :
    resolve candidates tolerance code = .unresolved := by
  unfold resolve
  cases hd : Bytecode.decode code with
  | error e => rfl
  | ok bytes =>
    rw [h bytes hd]

/-- Other code is where a scan of the candidates that count finds it. -/
theorem resolve_of_bytes {candidates : List Candidate} {tolerance : Binary64} {code : String}
    {bytes : List UInt8} (hd : Bytecode.decode code = .ok bytes) (hne : bytes ≠ []) :
    resolve candidates tolerance code
      = match scan (distanceTo bytes) (gated bytes candidates tolerance) with
        | some c => .resolved c.address (distanceTo bytes c)
        | none => .unresolved := by
  unfold resolve
  rw [hd]
  cases bytes with
  | nil => exact absurd rfl hne
  | cons b bs =>
    simp only [bestMatch_eq_scan]
    cases scan (distanceTo (b :: bs)) (gated (b :: bs) candidates tolerance) <;> rfl

/-- **A code gets an address if and only if a candidate counts for its bytes.** -/
theorem address?_resolve_isSome (candidates : List Candidate) (tolerance : Binary64)
    (code : String) :
    (resolve candidates tolerance code).address?.isSome
      ↔ Matchable candidates tolerance code := by
  by_cases h : ∃ bytes, Bytecode.decode code = .ok bytes ∧ bytes ≠ []
  · obtain ⟨bytes, hd, hne⟩ := h
    have matchable : Matchable candidates tolerance code
        ↔ gated bytes candidates tolerance ≠ [] := by
      rw [ne_eq, gated_eq_nil_iff, not_not]
      constructor
      · rintro ⟨bytes', hd', _, c, hc⟩
        cases hd.symm.trans hd'
        exact ⟨c, hc⟩
      · intro hc
        exact ⟨bytes, hd, hne, hc⟩
    rw [matchable, resolve_of_bytes hd hne, ne_eq, ← scan_eq_none_iff (distanceTo bytes)]
    cases scan (distanceTo bytes) (gated bytes candidates tolerance) <;>
      simp [Resolution.address?]
  · have none : ∀ bytes, Bytecode.decode code = .ok bytes → bytes = [] := by
      intro bytes hd
      by_contra hne
      exact h ⟨bytes, hd, hne⟩
    rw [resolve_of_no_bytes none]
    constructor
    · intro found
      cases found
    · rintro ⟨bytes, hd, hne, _⟩
      exact absurd ⟨bytes, hd, hne⟩ h

/-- **The address is that of the earliest of the nearest candidates that count.** -/
theorem earliestNearest_of_address? {candidates : List Candidate} {tolerance : Binary64}
    {code address : String} (h : (resolve candidates tolerance code).address? = some address) :
    ∃ c, EarliestNearest candidates tolerance code c ∧ c.address = address := by
  have matchable : Matchable candidates tolerance code := by
    rw [← address?_resolve_isSome, h]
    rfl
  obtain ⟨bytes, hd, hne, _⟩ := matchable
  rw [resolve_of_bytes hd hne] at h
  cases hs : scan (distanceTo bytes) (gated bytes candidates tolerance) with
  | none =>
    rw [hs] at h
    cases h
  | some c =>
    rw [hs] at h
    obtain ⟨i, hi⟩ := (scan_eq_some_iff _ _ _).1 hs
    exact ⟨c, ⟨bytes, hd, hne, i, hi⟩, Option.some.inj h⟩

/-! ## §2. What an artifact is matched to -/

/-- The deployed code that an artifact has for a contract of a file. -/
def codeFor? (artifact : Artifact) (file contract : String) : Option String :=
  artifact.deployedCode?.bind (·.find? file contract)

/-- The call that is made for a target, if the artifact has code for it. -/
def callFor? (artifact : Artifact) (candidates : List Candidate) (tolerance : Binary64)
    (target : String × String × Target) : Option ResolutionMap.Call :=
  (codeFor? artifact target.1 target.2.1).map fun code =>
    ⟨target.1, target.2.1, resolve candidates tolerance code⟩

theorem matchArtifact_eq_run (artifact : Artifact) (targets : TargetMap)
    (candidates : List Candidate) (tolerance : Binary64) :
    matchArtifact artifact targets candidates tolerance
      = ResolutionMap.run (targets.flatten.filterMap (callFor? artifact candidates tolerance)) := by
  rw [ResolutionMap.run, List.foldl_filterMap]
  unfold matchArtifact
  congr 1
  funext m target
  unfold callFor? codeFor?
  cases artifact.deployedCode?.bind (·.find? target.1 target.2.1) with
  | none => rfl
  | some code =>
    simp only [Option.map_some, ResolutionMap.perform]

/-- What a contract resolves to: nothing, unless it is a target that the artifact has code for. -/
def outcome? (artifact : Artifact) (targets : TargetMap) (candidates : List Candidate)
    (tolerance : Binary64) (file contract : String) : Option Resolution :=
  if (targets.find? file contract).isSome then
    (codeFor? artifact file contract).map (resolve candidates tolerance)
  else none

/-- No target is called for twice. -/
theorem resolutionsFor_calls (artifact : Artifact) (targets : TargetMap)
    (candidates : List Candidate) (tolerance : Binary64) (file contract : String) :
    ResolutionMap.resolutionsFor
        (targets.flatten.filterMap (callFor? artifact candidates tolerance)) file contract
      = (outcome? artifact targets candidates tolerance file contract).toList := by
  have own : (targets.flatten.filterMap (callFor? artifact candidates tolerance)).filter
        (ResolutionMap.Call.isFor file contract)
      = (targets.flatten.filter (ContractMap.isAt file contract)).filterMap
          (callFor? artifact candidates tolerance) := by
    rw [List.filter_filterMap, List.filterMap_filter]
    congr 1
    funext target
    -- a call is for the contract that its target is
    unfold callFor?
    cases codeFor? artifact target.1 target.2.1 with
    | none => simp
    | some code =>
      rw [Option.map_some, Option.filter_some]
      rfl
  rw [ResolutionMap.resolutionsFor, own, ContractMap.filter_isAt_flatten, outcome?]
  cases targets.find? file contract with
  | none => rfl
  | some target =>
    unfold callFor?
    cases h : codeFor? artifact file contract <;> simp [h]

/-- **What is held for a contract is what it resolves to.** -/
theorem find?_matchArtifact (artifact : Artifact) (targets : TargetMap)
    (candidates : List Candidate) (tolerance : Binary64) (file contract : String) :
    (matchArtifact artifact targets candidates tolerance).find? file contract
      = outcome? artifact targets candidates tolerance file contract := by
  -- there is one call at most, and it meets an empty place
  rw [matchArtifact_eq_run, ResolutionMap.find?_run, resolutionsFor_calls]
  cases outcome? artifact targets candidates tolerance file contract <;> rfl

theorem outcome?_isSome (artifact : Artifact) (targets : TargetMap) (candidates : List Candidate)
    (tolerance : Binary64) (file contract : String) :
    (outcome? artifact targets candidates tolerance file contract).isSome
      ↔ (targets.find? file contract).isSome ∧ (codeFor? artifact file contract).isSome := by
  unfold outcome?
  cases targets.find? file contract <;> cases codeFor? artifact file contract <;> simp

/-! ## §3. What is noted -/

/-- The two readings of what targets resolved to, for code by file and contract. Each target with
code is in one of them and there once, if the contracts with code have no colon in their names;
whether it has an address, and which, is decided by its code and the candidates. -/
structure Classified (code? : String → String → Option String) (targets : TargetMap)
    (candidates : List Candidate) (tolerance : Binary64) (addresses : ContractMap String)
    (unresolved : List String) : Prop where
  once : (∀ file contract, (code? file contract).isSome → ColonFree contract) →
    ∀ file contract, ColonFree contract →
    addresses.occurrences file contract + unresolved.count (qualified file contract)
      = if (targets.find? file contract).isSome ∧ (code? file contract).isSome then 1 else 0
  named : ∀ name ∈ unresolved, ∃ file contract, name = qualified file contract ∧
    (targets.find? file contract).isSome ∧ (code? file contract).isSome
  addressed : ∀ file contract, (addresses.find? file contract).isSome
    ↔ (targets.find? file contract).isSome ∧
      ∃ code, code? file contract = some code ∧ Matchable candidates tolerance code
  nearest : ∀ file contract address, addresses.find? file contract = some address →
    ∃ code c, code? file contract = some code ∧ EarliestNearest candidates tolerance code c ∧
      c.address = address

/-- What reconciliation makes of an artifact. An unsuccessful one stays as it is; of a successful
one nothing changes but the two notes, which classify its targets. -/
structure Annotated (targets : TargetMap) (candidates : List Candidate) (tolerance : Binary64)
    (before after : Artifact) : Prop where
  unsuccessful : before.success = false → after = before
  others : { after with addresses? := before.addresses?, unresolved? := before.unresolved? }
    = before
  classified : before.success = true → ∃ addresses unresolved,
    after.addresses? = some addresses ∧ after.unresolved? = some unresolved ∧
      Classified (codeFor? before) targets candidates tolerance addresses unresolved

theorem classified_matchArtifact (artifact : Artifact) (targets : TargetMap)
    (candidates : List Candidate) (tolerance : Binary64) :
    let m := matchArtifact artifact targets candidates tolerance
    Classified (codeFor? artifact) targets candidates tolerance m.addresses m.unresolved := by
  intro m
  have held : ∀ file contract, m.find? file contract
      = outcome? artifact targets candidates tolerance file contract :=
    find?_matchArtifact artifact targets candidates tolerance
  refine ⟨?_, ?_, ?_, ?_⟩
  · intro names file contract hc
    have colonFree : m.ColonFreeNames := by
      intro f c h
      rw [held, outcome?_isSome] at h
      exact names f c h.2
    rw [(ResolutionMap.partitioned colonFree).once file contract hc, held]
    simp only [outcome?_isSome]
  · -- no name is noted for what is no target or has no code
    intro name hn
    obtain ⟨file, contract, rfl, h⟩ := ResolutionMap.mem_unresolved_iff.1 hn
    refine ⟨file, contract, rfl, ?_⟩
    rw [← outcome?_isSome artifact targets candidates tolerance, ← held, h]
    rfl
  · intro file contract
    rw [ResolutionMap.find?_addresses, held, outcome?]
    cases targets.find? file contract with
    | none => simp
    | some target =>
      cases codeFor? artifact file contract with
      | none => simp
      | some code =>
        simp [address?_resolve_isSome]
  · intro file contract address ha
    rw [ResolutionMap.find?_addresses, held, outcome?] at ha
    split at ha
    · obtain ⟨r, hr, haddress⟩ := Option.bind_eq_some_iff.1 ha
      obtain ⟨code, hcode, rfl⟩ := Option.map_eq_some_iff.1 hr
      obtain ⟨c, hc, hca⟩ := earliestNearest_of_address? haddress
      exact ⟨code, c, hcode, hc, hca⟩
    · cases ha

theorem annotated_annotate (targets : TargetMap) (candidates : List Candidate)
    (tolerance : Binary64) (artifact : Artifact) :
    Annotated targets candidates tolerance artifact
      (annotate targets candidates tolerance artifact) := by
  refine ⟨?_, ?_, ?_⟩
  · intro h
    rw [annotate, if_neg (by simp [h])]
  · unfold annotate
    split <;> rfl
  · intro h
    rw [annotate, if_pos h]
    exact ⟨_, _, rfl, rfl, classified_matchArtifact artifact targets candidates tolerance⟩

/-- **Reconciliation classifies the targets of each successful artifact and touches nothing else**,
whatever the node answers. -/
theorem reconcileArtifacts_annotated {σ : Type u} (node : ChainNode σ) (artifacts : List Artifact)
    (targets : TargetMap) (tolerance : Binary64) (s : σ) :
    List.Forall₂ (Annotated targets (deployAll node artifacts targets s).1 tolerance) artifacts
      (reconcileArtifacts node artifacts targets tolerance s).1 := by
  show List.Forall₂ _ artifacts
    (artifacts.map (annotate targets (deployAll node artifacts targets s).1 tolerance))
  rw [List.forall₂_map_right_iff, List.forall₂_same]
  intro artifact _
  exact annotated_annotate targets _ tolerance artifact

end FuzzBundle.Reconciliation
