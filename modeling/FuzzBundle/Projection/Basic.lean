/-
  FuzzBundle.Projection.Basic — the parts that a source file is taken apart into.

  A unit has a header and contracts; a contract has its own header, state variables, modifiers and
  functions, each of them with the source text it is printed as.
-/
import FuzzBundle.Json.Record

namespace FuzzBundle

/-- A parameter or result of a function. -/
structure ParameterProjection where
  name : String
  type : String
  deriving DecidableEq, Repr

/-- A state variable of a contract. -/
structure VariableProjection where
  name : String
  docs : String
  type : String
  body : String
  deriving DecidableEq, Repr

/-- A function of a contract. -/
structure FunctionProjection where
  name : String
  docs : String
  args : List ParameterProjection
  rets : List ParameterProjection
  source : String
  isConstructor : Bool
  isImplemented : Bool
  visibility : String
  isVirtual : Bool
  deriving DecidableEq, Repr

/-- A contract. -/
structure ContractProjection where
  name : String
  docs : String
  kind : String
  isAbstract : Bool
  bases : List String
  header : String
  modifiers : List String
  stateVariables : List VariableProjection
  functions : List FunctionProjection
  deriving DecidableEq, Repr

/-- A source file. -/
structure UnitProjection where
  header : String
  contracts : List ContractProjection
  deriving DecidableEq, Repr

/-! ## Reading and writing -/

instance : Recorded ParameterProjection where
  encode p := .object (written "name" p.name ++ written "type" p.type)
  decode w := do
    let s ← w.slots? ["name", "type"]
    return { name := ← s.required "name", type := ← s.required "type" }

instance : Recorded VariableProjection where
  encode v := .object (
    written "name" v.name ++ written "docs" v.docs ++ written "type" v.type
      ++ written "body" v.body)
  decode w := do
    let s ← w.slots? ["name", "docs", "type", "body"]
    return {
      name := ← s.required "name"
      docs := ← s.required "docs"
      type := ← s.required "type"
      body := ← s.required "body" }

instance : Recorded FunctionProjection where
  encode f := .object (
    written "name" f.name ++ written "docs" f.docs ++ written "args" f.args
      ++ written "rets" f.rets ++ written "source" f.source ++ written "constructor" f.isConstructor
      ++ written "implemented" f.isImplemented ++ written "visibility" f.visibility
      ++ written "virtual" f.isVirtual)
  decode w := do
    let s ← w.slots? ["name", "docs", "args", "rets", "source", "constructor", "implemented",
      "visibility", "virtual"]
    return {
      name := ← s.required "name"
      docs := ← s.required "docs"
      args := ← s.required "args"
      rets := ← s.required "rets"
      source := ← s.required "source"
      isConstructor := ← s.required "constructor"
      isImplemented := ← s.required "implemented"
      visibility := ← s.required "visibility"
      isVirtual := ← s.required "virtual" }

instance : Recorded ContractProjection where
  encode c := .object (
    written "name" c.name ++ written "docs" c.docs ++ written "kind" c.kind
      ++ written "abstract" c.isAbstract ++ written "bases" c.bases
      ++ written "contract_header" c.header ++ written "modifiers" c.modifiers
      ++ written "state_variables" c.stateVariables ++ written "functions" c.functions)
  decode w := do
    let s ← w.slots? ["name", "docs", "kind", "abstract", "bases", "contract_header", "modifiers",
      "state_variables", "functions"]
    return {
      name := ← s.required "name"
      docs := ← s.required "docs"
      kind := ← s.required "kind"
      isAbstract := ← s.required "abstract"
      bases := ← s.required "bases"
      header := ← s.required "contract_header"
      modifiers := ← s.required "modifiers"
      stateVariables := ← s.required "state_variables"
      functions := ← s.required "functions" }

instance : Recorded UnitProjection where
  encode u := .object (written "header" u.header ++ written "contracts" u.contracts)
  decode w := do
    let s ← w.slots? ["header", "contracts"]
    return { header := ← s.required "header", contracts := ← s.required "contracts" }

end FuzzBundle
