/-
  FuzzBundle.Compiler.Output — what a compiler answers.

  Only the parts that this library looks at have a form of their own; syntax trees and interfaces of
  contracts are kept as the values they are. `CompilerOutput.read?` wants the whole text to be one
  output document, and `overlaySources` puts source texts into the entries that exist already.
-/
import FuzzBundle.Json.Record

namespace FuzzBundle

/-! ## §1. The record -/

/-- A message of the compiler. -/
structure Diagnostic where
  severity : String
  message : String
  formatted? : Option String
  category? : Option String
  deriving DecidableEq

/-- What was found out about a source file. -/
structure SourceOutput where
  id? : Option Nat
  tree? : Option Json
  legacyTree? : Option Json
  source? : Option String
  deriving DecidableEq

/-- Code with its source map. -/
structure CodeOutput where
  object? : Option String
  sourceMap? : Option String
  deriving DecidableEq

/-- The code that creates a contract and the code that is then deployed. -/
structure MachineOutput where
  creation? : Option CodeOutput
  deployed? : Option CodeOutput
  deriving DecidableEq

/-- What was compiled from a contract. -/
structure ContractOutput where
  abi? : Option Json
  machine? : Option MachineOutput
  deriving DecidableEq

/-- The answer of a compiler. -/
structure CompilerOutput where
  errors : List Diagnostic
  sources : Dict SourceOutput
  contracts : ContractMap ContractOutput
  deriving DecidableEq

/-! ## §2. Reading and writing -/

instance : Recorded Diagnostic where
  encode d := .object (
    written "severity" d.severity ++ written "message" d.message
      ++ writtenIfAny "formattedMessage" d.formatted? ++ writtenIfAny "type" d.category?)
  decode w := do
    let s ← w.slots? ["severity", "message", "formattedMessage", "type"]
    return {
      severity := ← s.withDefault "severity" ""
      message := ← s.withDefault "message" ""
      formatted? := ← s.optional "formattedMessage"
      category? := ← s.optional "type" }

instance : Recorded SourceOutput where
  encode o := .object (
    writtenIfAny "id" o.id? ++ writtenIfAny "ast" o.tree? ++ writtenIfAny "legacyAST" o.legacyTree?
      ++ writtenIfAny "source" o.source?)
  decode w := do
    let s ← w.slots? ["id", "ast", "legacyAST", "source"]
    return {
      id? := ← s.optional "id"
      tree? := ← s.optional "ast"
      legacyTree? := ← s.optional "legacyAST"
      source? := ← s.optional "source" }

instance : Recorded CodeOutput where
  encode o := .object (writtenIfAny "object" o.object? ++ writtenIfAny "sourceMap" o.sourceMap?)
  decode w := do
    let s ← w.slots? ["object", "sourceMap"]
    return { object? := ← s.optional "object", sourceMap? := ← s.optional "sourceMap" }

instance : Recorded MachineOutput where
  encode o := .object (
    writtenIfAny "bytecode" o.creation? ++ writtenIfAny "deployedBytecode" o.deployed?)
  decode w := do
    let s ← w.slots? ["bytecode", "deployedBytecode"]
    return { creation? := ← s.optional "bytecode", deployed? := ← s.optional "deployedBytecode" }

instance : Recorded ContractOutput where
  encode o := .object (writtenIfAny "abi" o.abi? ++ writtenIfAny "evm" o.machine?)
  decode w := do
    let s ← w.slots? ["abi", "evm"]
    return { abi? := ← s.optional "abi", machine? := ← s.optional "evm" }

instance : Recorded CompilerOutput where
  encode o := .object (
    written "errors" o.errors ++ written "sources" o.sources ++ written "contracts" o.contracts)
  decode w := do
    let s ← w.slots? ["errors", "sources", "contracts"]
    return {
      errors := ← s.withDefault "errors" []
      sources := ← s.withDefault "sources" Dict.empty
      contracts := ← s.withDefault "contracts" Dict.empty }

/-- The output that a text holds, when the whole text is one output document. -/
def CompilerOutput.read? (text : String) : Option CompilerOutput :=
  (Written.read text).bind decode

/-! ## §3. Looking into an output -/

/-- Whether a message reports an error. The case of letters does not matter. -/
def Diagnostic.isError (d : Diagnostic) : Bool :=
  d.severity.toList.map Char.toLower == "error".toList

/-- The text of a message: as the compiler formatted it, or else bare. -/
def Diagnostic.text (d : Diagnostic) : String :=
  match d.formatted? with
  | some text => if text = "" then d.message else text
  | none => d.message

/-- The code that creates a contract. -/
def ContractOutput.creationCode? (c : ContractOutput) : Option String :=
  (c.machine?.bind (·.creation?)).bind (·.object?)

/-- The code that is deployed. -/
def ContractOutput.deployedCode? (c : ContractOutput) : Option String :=
  (c.machine?.bind (·.deployed?)).bind (·.object?)

/-- The source map of the code that is deployed. -/
def ContractOutput.deployedSourceMap? (c : ContractOutput) : Option String :=
  (c.machine?.bind (·.deployed?)).bind (·.sourceMap?)

/-- The messages that report errors. -/
def CompilerOutput.errorDiagnostics (o : CompilerOutput) : List Diagnostic :=
  o.errors.filter Diagnostic.isError

/-- Whether any message reports an error. -/
def CompilerOutput.hasErrors (o : CompilerOutput) : Bool := !o.errorDiagnostics.isEmpty

/-- Sets the source text of a file that has an entry. -/
def CompilerOutput.overlaySource (o : CompilerOutput) (path content : String) : CompilerOutput :=
  { o with sources := o.sources.modify path fun entry => { entry with source? := some content } }

/-- Sets the source texts of files that have an entry, one after the other. -/
def CompilerOutput.overlaySources (o : CompilerOutput) (contents : List (String × String)) :
    CompilerOutput :=
  contents.foldl (fun o entry => o.overlaySource entry.1 entry.2) o

end FuzzBundle
