/-
  FuzzBundle.Deployment.Resolution — which targets were found, and where.

  A `ResolutionMap` keeps for every contract the nearest match that was recorded for it: a
  resolution that is there is replaced only by a strictly nearer one (`record`).
-/
import FuzzBundle.Json.Record

namespace FuzzBundle

/-- What is known about a target: the address of the nearest code and its distance, or nothing. -/
inductive Resolution where
  | resolved (address : String) (distance : Nat)
  | unresolved
  deriving DecidableEq, Repr

/-- Resolutions by file and contract. -/
abbrev ResolutionMap := ContractMap Resolution

namespace ResolutionMap

/-- Whether a resolution takes the place of what is there. -/
def replaces (new : Resolution) : Option Resolution → Bool
  | none => true
  | some .unresolved =>
    match new with
    | .resolved _ _ => true
    | .unresolved => false
  | some (.resolved _ current) =>
    match new with
    | .resolved _ distance => distance < current
    | .unresolved => false

/-- Records a resolution for a contract of a file. The file gets an entry first, whatever is then
decided. -/
def record (m : ResolutionMap) (file contract : String) (resolution : Resolution) : ResolutionMap :=
  let contracts := (m.get? file).getD Dict.empty
  let m := m.insert file contracts
  if replaces resolution (contracts.get? contract) then
    m.insert file (contracts.insert contract resolution)
  else m

/-- Adds the address that an entry resolves to, if it does. -/
def addAddress (found : ContractMap String) (entry : String × String × Resolution) :
    ContractMap String :=
  match entry.2.2 with
  | .resolved address _ => found.put entry.1 entry.2.1 address
  | .unresolved => found

/-- The addresses that were found. Files without any are left out. -/
def addresses (m : ResolutionMap) : ContractMap String := m.flatten.foldl addAddress Dict.empty

/-- The contracts that were not found, named after file and contract. -/
def unresolved (m : ResolutionMap) : List String :=
  m.flatten.filterMap fun entry =>
    match entry.2.2 with
    | .unresolved => some (entry.1 ++ ":" ++ entry.2.1)
    | .resolved _ _ => none

end ResolutionMap

/-- A resolution says in `status` which one it is. In an array the status comes first, and all that
follows it must be fields. -/
instance : Recorded Resolution where
  encode
    | .resolved address distance =>
      .object (written "status" "resolved" ++ written "address" address
        ++ written "distance" distance)
    | .unresolved => .object (written "status" "unresolved")
  decode w := do
    let _ ← w.value?
    let (status, rest) ←
      match w with
      | .object fields =>
        if namedOnce ["status"] fields then
          (Entries.get? fields "status").map fun status =>
            (status, Written.object (fields.filter (·.1 ≠ "status")))
        else none
      | .array (status :: rest) => some (status, .array rest)
      | _ => none
    let status : String ← decode status
    match status with
    | "resolved" => do
      let s ← rest.slots? ["address", "distance"]
      return .resolved (← s.required "address") (← s.required "distance")
    | "unresolved" =>
      match rest with
      | .object _ | .array [] => return .unresolved
      | _ => none
    | _ => none

end FuzzBundle
