/-
  FuzzBundle.Compiler.Input — what a compiler is asked.

  An input document keeps the keys that this library does not know, in its source entries and in its
  settings; they are written back after the known ones. `InputSettings.forceOutputs` adds to the
  output selection what the rest of the library needs and leaves everything else as it is.
-/
import FuzzBundle.Json.Record

namespace FuzzBundle

/-! ## §1. The record -/

/-- A source file of an input: its text, and whatever else a build tool says about it. -/
structure SourceEntry where
  content? : Option String
  extra : Dict Json
  deriving DecidableEq

/-- Which outputs are selected, by file pattern and contract pattern. -/
abbrev OutputSelection := Dict (Dict (List String))

/-- The settings of an input. -/
structure InputSettings where
  remappings : List String
  outputSelection : OutputSelection
  extra : Dict Json
  deriving DecidableEq

/-- A request to a compiler. -/
structure InputDocument where
  language : String
  sources : Dict SourceEntry
  settings : InputSettings
  deriving DecidableEq

/-- A source file of which the text is known, and nothing else. -/
def SourceEntry.ofContent (content : String) : SourceEntry := ⟨some content, Dict.empty⟩

/-- Settings that select and say nothing. -/
def InputSettings.empty : InputSettings := ⟨[], Dict.empty, Dict.empty⟩

/-! ## §2. Reading and writing -/

/-- Fields whose names are not known, as a dictionary. -/
def unknownFields (known : List String) (fields : List (String × Written)) : Option (Dict Json) :=
  (decodeFields (fields.filter fun field => !known.contains field.1)).map Dict.ofList

/-- The fields of a dictionary of values. -/
def writtenEach (extra : Dict Json) : List (String × Written) :=
  extra.toList.map fun entry => (entry.1, encode entry.2)

instance : Recorded SourceEntry where
  encode e := .object (writtenIfAny "content" e.content? ++ writtenEach e.extra)
  decode
    | .object fields => do
      let s ← (Written.object fields).slots? ["content"]
      return {
        content? := ← s.optional "content"
        extra := ← unknownFields ["content"] fields }
    | _ => none

instance : Recorded InputSettings where
  encode s := .object (
    (if s.remappings.isEmpty then [] else written "remappings" s.remappings)
      ++ written "outputSelection" s.outputSelection ++ writtenEach s.extra)
  decode
    | .object fields => do
      let s ← (Written.object fields).slots? ["remappings", "outputSelection"]
      return {
        remappings := ← s.withDefault "remappings" []
        outputSelection := ← s.withDefault "outputSelection" Dict.empty
        extra := ← unknownFields ["remappings", "outputSelection"] fields }
    | _ => none

instance : Recorded InputDocument where
  encode d := .object (
    written "language" d.language ++ written "sources" d.sources ++ written "settings" d.settings)
  decode w := do
    let s ← w.slots? ["language", "sources", "settings"]
    return {
      language := ← s.required "language"
      sources := ← s.required "sources"
      settings := ← s.withDefault "settings" .empty }

/-! ## §3. Forced outputs -/

/-- What is selected for every contract. -/
def forcedContractOutputs : List String :=
  ["ast", "legacyAST", "evm.deployedBytecode.sourceMap", "evm.bytecode", "evm.deployedBytecode",
    "abi"]

/-- What is selected for every file. -/
def forcedFileOutputs : List String := ["ast", "legacyAST"]

/-- Appends what a list lacks. -/
def withMissing (selected required : List String) : List String :=
  required.foldl (fun acc output => if acc.contains output then acc else acc ++ [output]) selected

/-- Selects outputs at one place of a selection. -/
def selectOutputs (contracts : Dict (List String)) (contract : String) (required : List String) :
    Dict (List String) :=
  contracts.insert contract (withMissing ((contracts.get? contract).getD []) required)

namespace InputSettings

/-- Selects the forced outputs for every contract of every file and for every file. -/
def forceOutputs (s : InputSettings) : InputSettings :=
  let everyFile := (s.outputSelection.get? "*").getD Dict.empty
  let selected := selectOutputs (selectOutputs everyFile "*" forcedContractOutputs) ""
    forcedFileOutputs
  { s with outputSelection := s.outputSelection.insert "*" selected }

/-- Whether some outputs are selected for a contract pattern. -/
def covers (contracts : Dict (List String)) (contract : String) (required : List String) : Bool :=
  match contracts.get? contract with
  | some selected => required.all selected.contains
  | none => false

/-- Whether the forced outputs are selected. -/
def hasForcedOutputs (s : InputSettings) : Bool :=
  match s.outputSelection.get? "*" with
  | some contracts =>
    covers contracts "*" forcedContractOutputs && covers contracts "" forcedFileOutputs
  | none => false

end InputSettings

namespace InputDocument

/-- A request to compile sources of this language. -/
def ofSources (sources : Dict SourceEntry) (settings : InputSettings) : InputDocument :=
  ⟨"Solidity", sources, settings⟩

/-- The document with the forced outputs selected. -/
def withForcedOutputs (d : InputDocument) : InputDocument :=
  { d with settings := d.settings.forceOutputs }

/-- The texts of the sources that have one. -/
def sourceContents (d : InputDocument) : List (String × String) :=
  d.sources.toList.filterMap fun entry => entry.2.content?.map fun content => (entry.1, content)

/-- The text of a document on one line. -/
def text (d : InputDocument) : String := (encode d : Written).compact

end InputDocument

end FuzzBundle
