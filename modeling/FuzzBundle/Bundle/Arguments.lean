/-
  FuzzBundle.Bundle.Arguments — command lines and what they ask for.

  A command takes flags, options with a value, and values without a name, and a `Signature` lists
  them. Arguments are looked at from left to right, and the first one that is out of place ends
  the reading, unless help was asked for before it. `Command.ofArguments` gives the command that
  is asked for, with its defaults.
-/
import FuzzBundle.Text.Blank
import FuzzBundle.Text.Natural

namespace FuzzBundle

/-! ## §1. Reading arguments -/

/-- The kinds of values: any text, a path, which is not empty, and a natural number of 64 bits. -/
inductive ValueKind where
  | text
  | path
  | number
  deriving DecidableEq, Repr

/-- Whether a text is a value of a kind. -/
def ValueKind.accepts : ValueKind → String → Bool
  | .text, _ => true
  | .path, value => value ≠ ""
  | .number, value => (Text.bounded? Text.word64 value.toList).isSome

/-- What a command takes. Names of flags and options stand without their dashes. -/
structure Signature where
  flags : List String
  options : List (String × ValueKind)
  places : List ValueKind

/-- What was given to a command. -/
structure Given where
  flags : List String := []
  options : List (String × String) := []
  values : List String := []

/-- How the reading of arguments ends: with what was asked for, with a request for help, or with
arguments that are out of place. -/
inductive Parsed (α : Type u) where
  | asked (a : α)
  | help
  | misused
  deriving DecidableEq

namespace Given

/-- The value of an option. -/
def option? (g : Given) (name : String) : Option String :=
  (g.options.find? (·.1 == name)).map Prod.snd

/-- Adds a value without a name, if there is a place for it. -/
def addValue? (g : Given) (s : Signature) (value : String) : Option Given :=
  match s.places[g.values.length]? with
  | some kind => if kind.accepts value then some { g with values := g.values ++ [value] } else none
  | none => none

/-- Adds a flag that was not given before. -/
def addFlag? (g : Given) (s : Signature) (name : String) : Option Given :=
  if s.flags.contains name ∧ ¬ g.flags.contains name then
    some { g with flags := g.flags ++ [name] }
  else none

/-- Adds an option that was not given before. -/
def addOption? (g : Given) (s : Signature) (name value : String) : Option Given :=
  match s.options.find? (·.1 == name) with
  | some (_, kind) =>
    if kind.accepts value ∧ (g.option? name).isNone then
      some { g with options := g.options ++ [(name, value)] }
    else none
  | none => none

end Given

/-- The forms of an argument. -/
inductive Argument where
  | separator
  | long (name : String) (value? : Option String)
  | short (letters : List Char)
  | plain (text : String)
  deriving DecidableEq, Repr

/-- The form of an argument. A single dash is a value. -/
def Argument.ofText (text : String) : Argument :=
  match text.toList with
  | '-' :: '-' :: rest =>
    if rest.isEmpty then .separator
    else
      let name := rest.takeWhile (· ≠ '=')
      match rest.drop name.length with
      | _ :: value => .long (String.ofList name) (some (String.ofList value))
      | [] => .long (String.ofList name) none
  | '-' :: letter :: rest => .short (letter :: rest)
  | _ => .plain text

namespace Signature

/-- Adds values without names. -/
def readValues (s : Signature) (g : Given) : List String → Parsed Given
  | [] => .asked g
  | value :: rest =>
    match g.addValue? s value with
    | some g => s.readValues g rest
    | none => .misused

/-- Whether a text can be the value of the option before it. -/
def isValue (text : String) : Bool :=
  match Argument.ofText text with
  | .plain _ => true
  | _ => false

/-- Reads arguments, given what was read before them. -/
def readFrom (s : Signature) (g : Given) : List String → Parsed Given
  | [] => .asked g
  | argument :: rest =>
    match Argument.ofText argument with
    | .separator => s.readValues g rest
    | .short letters => if letters.head? = some 'h' then .help else .misused
    | .plain text =>
      match g.addValue? s text with
      | some g => s.readFrom g rest
      | none => .misused
    | .long name (some value) =>
      match g.addOption? s name value with
      | some g => s.readFrom g rest
      | none => .misused
    | .long name none =>
      if name = "help" then .help
      else
        match g.addFlag? s name with
        | some g => s.readFrom g rest
        | none =>
          match rest with
          | [] => .misused
          | value :: rest =>
            if isValue value then
              match g.addOption? s name value with
              | some g => s.readFrom g rest
              | none => .misused
            else .misused

/-- Reads the arguments of a command. -/
def read (s : Signature) (arguments : List String) : Parsed Given := s.readFrom {} arguments

end Signature

/-! ## §2. Commands -/

/-- What a build is asked to do. -/
structure BuildArguments where
  folder : String := "."
  kind? : Option String := none
  version? : Option String := none
  target? : Option String := none
  rpcUrl? : Option String := none
  targets? : Option String := none
  targetsOutput : String := "offchain_config.json"
  output : String := "results.json"
  noDeploy : Bool := false
  keepScratch : Bool := false
  deriving DecidableEq, Repr

/-- The commands. -/
inductive Command where
  | build (arguments : BuildArguments)
  | worker (version scratch : String) (stackSize : Nat)
  deriving DecidableEq, Repr

namespace Command

/-- What `build` takes. -/
def buildSignature : Signature where
  flags := ["no-deploy", "keep-scratch"]
  options := [
    ("project-type", .text), ("compiler-version", .text), ("contract", .text), ("rpc-url", .text),
    ("targets", .path), ("targets-output", .path), ("output", .path)]
  places := [.path]

/-- What `solc-worker` takes. -/
def workerSignature : Signature where
  flags := []
  options := [("stack-size", .number)]
  places := [.text, .path]

/-- A build with what was given for it. -/
def buildOf (g : Given) : Command :=
  let defaults : BuildArguments := {}
  .build {
    folder := g.values.head?.getD defaults.folder
    kind? := g.option? "project-type"
    version? := g.option? "compiler-version"
    target? := g.option? "contract"
    rpcUrl? := g.option? "rpc-url"
    targets? := g.option? "targets"
    targetsOutput := (g.option? "targets-output").getD defaults.targetsOutput
    output := (g.option? "output").getD defaults.output
    noDeploy := g.flags.contains "no-deploy"
    keepScratch := g.flags.contains "keep-scratch" }

/-- A worker with what was given for it; everything it takes must be given. -/
def workerOf (g : Given) : Parsed Command :=
  let stackSize? := (g.option? "stack-size").bind fun size => Text.bounded? Text.word64 size.toList
  match g.values, stackSize? with
  | [version, scratch], some stackSize => .asked (.worker version scratch stackSize)
  | _, _ => .misused

/-- The names of all commands. -/
def names : List String := ["build", "solc-worker", "help"]

/-- The command that some arguments ask for. -/
def ofArguments (arguments : List String) : Parsed Command :=
  match arguments with
  | [] => .misused
  | first :: rest =>
    match first with
    | "build" =>
      match buildSignature.read rest with
      | .asked g => .asked (buildOf g)
      | .help => .help
      | .misused => .misused
    | "solc-worker" =>
      match workerSignature.read rest with
      | .asked g => workerOf g
      | .help => .help
      | .misused => .misused
    | "help" =>
      match rest with
      | [] => .help
      | [name] => if names.contains name then .help else .misused
      | _ => .misused
    | other =>
      match Argument.ofText other with
      | .long "help" none | .long "version" none => .help
      | .short (letter :: _) => if letter = 'h' ∨ letter = 'V' then .help else .misused
      | _ => .misused

end Command

end FuzzBundle
