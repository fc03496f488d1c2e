/-
  FuzzBundle.Artifact.Basic — the artifact of a compiled unit.

  An artifact says whether a unit was compiled, and if so, everything about it that a fuzzer wants:
  projected sources, codes, interfaces, invariants, and how to compile it again. Fields that are not
  there are left out where it is written.

  Some fields have a value for every contract, or the value of the one contract that was asked for
  (`PerContract`). Reading prefers the first form.
-/
import FuzzBundle.Compiler.Input
import FuzzBundle.Invariant
import FuzzBundle.Projection.Basic

namespace FuzzBundle

/-! ## §1. Values per contract -/

/-- The values of all contracts, or the value of one. -/
inductive PerContract (α : Type u) where
  | nested (values : ContractMap α)
  | single (value : α)
  deriving DecidableEq

namespace PerContract

/-- The values of all contracts, if these are what is there. -/
def nested? : PerContract α → Option (ContractMap α)
  | .nested values => some values
  | .single _ => none

/-- The value of a contract of a file, where there are values for all contracts. -/
def find? (p : PerContract α) (file contract : String) : Option α :=
  p.nested?.bind (·.find? file contract)

end PerContract

instance [Recorded α] : Recorded (PerContract α) where
  encode
    | .nested values => encode values
    | .single value => encode value
  decode w :=
    match (decode w : Option (ContractMap α)) with
    | some values => some (.nested values)
    | none => (decode w).map .single

/-! ## §2. The record -/

/-- A source file: its number in source maps and its text. -/
structure SourceRecord where
  id? : Option Nat
  source? : Option String
  deriving DecidableEq

/-- What was compiled and with which version of the compiler. -/
structure CompilerArgs where
  version : String
  document : InputDocument
  deriving DecidableEq

/-- The artifact of a unit. -/
structure Artifact where
  success : Bool
  error? : Option String := none
  remappings? : Option (List String) := none
  projections? : Option (Dict UnitProjection) := none
  sourceMap? : Option (PerContract String) := none
  sources? : Option (Dict SourceRecord) := none
  creationCode? : Option (PerContract String) := none
  deployedCode? : Option (PerContract String) := none
  abi? : Option (PerContract Json) := none
  invariants? : Option (List Invariant) := none
  args? : Option CompilerArgs := none
  addresses? : Option (ContractMap String) := none
  unresolved? : Option (List String) := none
  deriving DecidableEq

/-- The artifact of a unit that failed. -/
def Artifact.failed (error : String) : Artifact := { success := false, error? := some error }

/-! ## §3. Reading and writing -/

instance : Recorded SourceRecord where
  encode r := .object (writtenOrNull "id" r.id? ++ writtenOrNull "source" r.source?)
  decode w := do
    let s ← w.slots? ["id", "source"]
    return { id? := ← s.nullable "id", source? := ← s.nullable "source" }

instance : Recorded CompilerArgs where
  encode a := .object (written "version" a.version ++ written "compiler_json" a.document)
  decode w := do
    let s ← w.slots? ["version", "compiler_json"]
    return { version := ← s.required "version", document := ← s.required "compiler_json" }

instance : Recorded Artifact where
  encode a := .object (
    written "success" a.success ++ writtenIfAny "err" a.error?
      ++ writtenIfAny "remappings" a.remappings? ++ writtenIfAny "ast" a.projections?
      ++ writtenIfAny "sourcemap" a.sourceMap? ++ writtenIfAny "sources" a.sources?
      ++ writtenIfAny "bytecode" a.creationCode? ++ writtenIfAny "runtime_bytecode" a.deployedCode?
      ++ writtenIfAny "abi" a.abi? ++ writtenIfAny "invariants" a.invariants?
      ++ writtenIfAny "compiler_args" a.args? ++ writtenIfAny "address" a.addresses?
      ++ writtenIfAny "unresolved" a.unresolved?)
  decode w := do
    let s ← w.slots? ["success", "err", "remappings", "ast", "sourcemap", "sources", "bytecode",
      "runtime_bytecode", "abi", "invariants", "compiler_args", "address", "unresolved"]
    return {
      success := ← s.required "success"
      error? := ← s.optional "err"
      remappings? := ← s.optional "remappings"
      projections? := ← s.optional "ast"
      sourceMap? := ← s.optional "sourcemap"
      sources? := ← s.optional "sources"
      creationCode? := ← s.optional "bytecode"
      deployedCode? := ← s.optional "runtime_bytecode"
      abi? := ← s.optional "abi"
      invariants? := ← s.optional "invariants"
      args? := ← s.optional "compiler_args"
      addresses? := ← s.optional "address"
      unresolved? := ← s.optional "unresolved" }

end FuzzBundle
