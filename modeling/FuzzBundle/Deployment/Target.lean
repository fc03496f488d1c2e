/-
  FuzzBundle.Deployment.Target — what is deployed.

  Targets are kept by file and contract and deployed in that order. They may be seeded from
  artifacts, with addresses that stand in until real ones are known; `apply` puts the real ones
  in.
-/
import FuzzBundle.Artifact.Basic

namespace FuzzBundle

/-- A contract to deploy: its address as far as it is known, and its constructor arguments. -/
structure Target where
  address : String
  constructorArgs : String
  deriving DecidableEq, Repr

/-- Targets by file and contract. -/
abbrev TargetMap := ContractMap Target

/-- No constructor arguments. -/
def Target.noArgs : String := "0x"

instance : Recorded Target where
  encode t := .object (written "address" t.address ++ written "constructor_args" t.constructorArgs)
  decode w := do
    let s ← w.slots? ["address", "constructor_args"]
    return {
      address := ← s.required "address"
      constructorArgs := ← s.withDefault "constructor_args" Target.noArgs }

namespace TargetMap

/-- Whether there is no target. -/
def hasNone (m : TargetMap) : Bool := m.values.all Dict.isEmpty

/-- The contracts whose interfaces the successful ones of some artifacts list. -/
def seedKeys (artifacts : List Artifact) : List (String × String) :=
  (artifacts.filter (·.success)).flatMap fun artifact =>
    match artifact.abi?.bind PerContract.nested? with
    | some interfaces => (ContractMap.flatten interfaces).map fun entry => (entry.1, entry.2.1)
    | none => []

/-- Adds a target for a contract that has none yet. The first number is how many were added before,
and gives the address that stands in. -/
def seedOne (fresh : Nat → String) (state : Nat × TargetMap) (key : String × String) :
    Nat × TargetMap :=
  match state.2.find? key.1 key.2 with
  | some _ => state
  | none => (state.1 + 1, state.2.put key.1 key.2 ⟨fresh state.1, Target.noArgs⟩)

/-- A target for every contract with an interface in a successful artifact. -/
def seed (fresh : Nat → String) (artifacts : List Artifact) : TargetMap :=
  ((seedKeys artifacts).foldl (seedOne fresh) (0, Dict.empty)).2

/-- Sets the address of a target that is there. -/
def setAddress (m : TargetMap) (file contract address : String) : TargetMap :=
  m.modify file fun targets =>
    targets.modify contract fun target => { target with address := address }

/-- Puts in the addresses that some artifacts have, one artifact after the other. -/
def apply (m : TargetMap) (artifacts : List Artifact) : TargetMap :=
  (artifacts.flatMap fun artifact => (artifact.addresses?.getD Dict.empty).flatten).foldl
    (fun m entry => m.setAddress entry.1 entry.2.1 entry.2.2) m

end TargetMap

end FuzzBundle
