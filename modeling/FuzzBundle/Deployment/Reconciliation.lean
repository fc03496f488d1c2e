/-
  FuzzBundle.Deployment.Reconciliation — finding out where contracts live.

  The targets are deployed one after the other, and the traces of the deployments show code at
  addresses (`deployAll`). Every successful artifact is then matched against what was seen: a target
  with code gets the address of the nearest candidate, and one without a suitable candidate is noted
  as not resolved. A target that could not be deployed changes nothing for the others.
-/
import FuzzBundle.Bytecode.Match
import FuzzBundle.Deployment.Chain
import FuzzBundle.Deployment.Resolution
import FuzzBundle.Deployment.Target

namespace FuzzBundle.Reconciliation

open Bytecode

/-! ## §1. Deployment -/

/-- The creation code of a target: the first one in a successful artifact that is not empty. -/
def creationCode? (artifacts : List Artifact) (file contract : String) : Option String :=
  ((artifacts.filter (·.success)).filterMap fun artifact =>
    artifact.creationCode?.bind (·.find? file contract)).find? fun code =>
      Text.trimStartText "0x" code ≠ ""

/-- What is sent to deploy code: the linked code and the constructor arguments. -/
def deploymentData (code constructorArgs : String) : String :=
  "0x" ++ normalize code ++ Text.dropStart "0x" constructorArgs

/-- Deploys one target. The candidates seen so far come with the state of the node. -/
def deployOne (node : ChainNode σ) (artifacts : List Artifact) (sender : String)
    (state : List Candidate × σ) (target : String × String × Target) : List Candidate × σ :=
  match creationCode? artifacts target.1 target.2.1 with
  | none => state
  | some code =>
    match node.send sender (deploymentData code target.2.2.constructorArgs) state.2 with
    | (.error _, after) => (state.1, after)
    | (.ok hash, after) =>
      match node.trace hash after with
      | (.error _, after) => (state.1, after)
      | (.ok trace, after) => (state.1 ++ candidatesOf trace, after)

/-- Deploys all targets from the first account of the node, in the order of their names, and gathers
the code that was seen. Without an account nothing is deployed. -/
def deployAll (node : ChainNode σ) (artifacts : List Artifact) (targets : TargetMap) (s : σ) :
    List Candidate × σ :=
  match node.accounts s with
  | (.ok (sender :: _), after) =>
    targets.flatten.foldl (deployOne node artifacts sender) ([], after)
  | (_, after) => ([], after)

/-! ## §2. Matching -/

/-- What the candidates say about some deployed code. Code without bytes is nowhere. -/
def resolve (candidates : List Candidate) (tolerance : Binary64) (code : String) : Resolution :=
  match Bytecode.decode code with
  | .error _ => .unresolved
  | .ok [] => .unresolved
  | .ok bytes =>
    match bestMatch bytes candidates tolerance with
    | some (candidate, distance) => .resolved candidate.address distance
    | none => .unresolved

/-- Matches the targets that an artifact has deployed code for. -/
def matchArtifact (artifact : Artifact) (targets : TargetMap) (candidates : List Candidate)
    (tolerance : Binary64) : ResolutionMap :=
  targets.flatten.foldl (fun m target =>
    match artifact.deployedCode?.bind (·.find? target.1 target.2.1) with
    | some code =>
      ResolutionMap.record m target.1 target.2.1 (resolve candidates tolerance code)
    | none => m) Dict.empty

/-- Notes on a successful artifact what its targets resolved to. -/
def annotate (targets : TargetMap) (candidates : List Candidate) (tolerance : Binary64)
    (artifact : Artifact) : Artifact :=
  if artifact.success then
    let m := matchArtifact artifact targets candidates tolerance
    { artifact with addresses? := some m.addresses, unresolved? := some m.unresolved }
  else artifact

/-- Deploys the targets and notes on every successful artifact what was found. -/
def reconcileArtifacts (node : ChainNode σ) (artifacts : List Artifact) (targets : TargetMap)
    (tolerance : Binary64) (s : σ) : List Artifact × σ :=
  let (candidates, after) := deployAll node artifacts targets s
  (artifacts.map (annotate targets candidates tolerance), after)

/-! ## §3. Artifacts and targets -/

/-- What reconciliation gives: the artifacts and the targets with their addresses. -/
structure Reconciled where
  artifacts : List Artifact
  targets : TargetMap

/-- Deploys the targets, seeded from the artifacts when none are given, and records what was found.
Where there is no target nothing is done. -/
def reconcile (node : ChainNode σ) (fresh : Nat → String) (artifacts : List Artifact)
    (targets? : Option TargetMap) (tolerance : Binary64) (s : σ) : Reconciled × σ :=
  let targets := targets?.getD (TargetMap.seed fresh artifacts)
  if TargetMap.hasNone targets then (⟨artifacts, targets⟩, s)
  else
    let (artifacts, after) := reconcileArtifacts node artifacts targets tolerance s
    (⟨artifacts, TargetMap.apply targets artifacts⟩, after)

end FuzzBundle.Reconciliation
