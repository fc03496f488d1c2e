/-
  FuzzBundle.Invariant — the invariants that source texts declare.

  A fuzzer looks for functions named `echidna_…`, for calls of the harness contract, and for
  assertions that instrumentation put into the source. They are found by their names alone: a
  harness that is imported under another name is not recognised.

  An extraction goes through the files, the contracts of a file, the functions of a contract and the
  nodes of a function in this order. It carries along what was found so far and the number of the
  next bug without a name, which is counted over all files.
-/
import FuzzBundle.Ast.Node
import FuzzBundle.Ast.TreeError
import FuzzBundle.Compiler.Output
import FuzzBundle.Text.Blank

namespace FuzzBundle

/-- How an invariant is declared. -/
inductive InvariantKind where
  | echidna
  | bug
  | typedBug
  | scribble
  deriving DecidableEq, Repr

/-- An invariant and its name. -/
structure Invariant where
  name : String
  kind : InvariantKind
  deriving DecidableEq, Repr

namespace Invariant

/-! ## §1. Names from arguments -/

/-- The label of an argument: its literal value, or else its name. -/
def label? (argument : Node) : Option String :=
  match argument.string? "value" with
  | some value => if value ≠ "" then some value else nameOf
  | none => nameOf
where
  /-- The name of an argument, unless it is empty. -/
  nameOf : Option String :=
    match argument.string? "name" with
    | some name => if name ≠ "" then some name else none
    | none => none

/-- A type as the compiler describes it; a string literal is described by its content. -/
def typeLabel (description : String) : String :=
  match Text.dropStart? "literal_string \"".toList description.toList with
  | some rest =>
    match rest.reverse with
    | '"' :: reversed => String.ofList reversed.reverse
    | _ => String.ofList rest
  | none => description

/-- The labels of the argument types that a node notes, unless it notes none. -/
def argumentTypes? (n : Node) : Option (List String) :=
  match (n.value? "argumentTypes").bind Json.items? with
  | some entries =>
    let labels := (entries.filterMap fun entry =>
      (entry.field? "typeString").bind Json.string?).map typeLabel
    if labels.isEmpty then none else some labels
  | none => none

/-- The name of an invariant that has none. -/
def unknownName : String := "Unknown Invariant"

/-- The name that the arguments of a call give: their labels if any has one, or else their types. -/
def joinedArguments (call callee : Node) : String :=
  let labels := (call.children "arguments").map label?
  if labels.any Option.isSome then String.intercalate "," (labels.map (·.getD ""))
  else
    match (argumentTypes? call).orElse fun _ => argumentTypes? callee with
    | some types => String.intercalate "," types
    | none => unknownName

/-! ## §2. What a node is looked at for -/

/-- The harness contract. -/
def harness : String := "FuzzLand"

/-- Whether a name contains the given text. -/
def contains (part : List Char) : List Char → Bool
  | [] => part.isEmpty
  | c :: rest => (Text.dropStart? part (c :: rest)).isSome || contains part rest

/-- Whether a name was made by the instrumentation. -/
def isInstrumented (name : String) : Bool := contains "Scribble".toList name.toList

/-- The name of the object that a member is accessed on. -/
def baseName (access : Node) : String :=
  ((access.child? "expression").bind (·.string? "name")).getD ""

/-- Whether a contract is part of the harness or of the instrumentation. -/
def isAuxiliary (contract : String) : Bool :=
  contract == harness || Text.startsWith "__ScribbleUtilsLib" contract

end Invariant

/-! ## §3. Extraction -/

/-- The state of an extraction: how many unnamed bugs were counted, and what was found. -/
structure Extraction where
  unnamedBugs : Nat := 0
  found : List Invariant := []
  deriving DecidableEq, Repr

namespace Extraction

open Invariant

/-- Notes an invariant. -/
def push (e : Extraction) (name : String) (kind : InvariantKind) : Extraction :=
  { e with found := e.found ++ [⟨name, kind⟩] }

/-- Notes a bug without a name and counts it. -/
def pushUnnamed (e : Extraction) : Extraction :=
  { e.push ("Unnamed Bug " ++ String.ofList (Nat.toDigits 10 e.unnamedBugs)) .bug with
    unnamedBugs := e.unnamedBugs + 1 }

/-- Looks at a call of a member of the harness. -/
def inspectHarnessCall (e : Extraction) (call callee : Node) : Extraction :=
  if callee.string "memberName" = "bug" then e.pushUnnamed
  else if callee.string "memberName" = "typed_bug" then
    e.push (joinedArguments call callee) .typedBug
  else e

/-- Looks at a call. A harness and an instrumented name are looked for one after the other. -/
def inspectCall (e : Extraction) (call : Node) : Extraction :=
  match call.child? "expression" with
  | none => e
  | some callee =>
    if callee.kind ≠ .memberAccess then e
    else
      let base := baseName callee
      let e := if base = harness then e.inspectHarnessCall call callee else e
      if isInstrumented base ∧ callee.string "memberName" = "assertionFailed" then
        e.push (joinedArguments call callee) .scribble
      else e

/-- Looks at an emitted event. -/
def inspectEmit (e : Extraction) (emit : Node) : Extraction :=
  match emit.child? "eventCall" with
  | none => e
  | some call =>
    match call.child? "expression" with
    | none => e
    | some event =>
      if event.kind = .identifier ∧ event.name = "AssertionFailed" then
        e.push (joinedArguments call event) .typedBug
      else if event.kind = .memberAccess ∧ event.string? "memberName" = some "AssertionFailed" then
        if isInstrumented (baseName event) then e.push (joinedArguments call event) .scribble else e
      else e

/-- Looks at a node of a function. -/
def visit (e : Extraction) (n : Node) : Extraction :=
  match n.kind with
  | .functionCall => e.inspectCall n
  | .emitStatement => e.inspectEmit n
  | _ => e

/-- Looks at a function: at its name, and then at every node of its tree. -/
def visitFunction (e : Extraction) (function : Node) : Extraction :=
  function.walk.foldl visit
    (if Text.startsWith "echidna_" function.name then e.push function.name .echidna else e)

/-- Looks at the functions of a contract, which must have a name. -/
def visitContract (file : String) (e : Extraction) (contract : Node) :
    Except TreeError Extraction :=
  if contract.name = "" then .error (.unnamedContract file)
  else if isAuxiliary contract.name then .ok e
  else .ok ((contract.membersOf .functionDefinition).foldl visitFunction e)

/-- Looks at the contracts of a file, which must have a tree. -/
def visitFile (e : Extraction) (entry : String × SourceOutput) : Except TreeError Extraction :=
  match entry.2.tree? with
  | none => .error (.missingTree entry.1)
  | some tree =>
    match Node.ofJson? tree with
    | none => .error (.unexpectedRoot "non-node value")
    | some unit => (unit.membersOf .contractDefinition).foldlM (visitContract entry.1) e

end Extraction

/-- The invariants that the sources of an output declare, files in the order of their names, unless
one of the files cannot be used. -/
def Invariant.ofOutput (output : CompilerOutput) : Except TreeError (List Invariant) :=
  (output.sources.toList.foldlM Extraction.visitFile {}).map (·.found)

/-! ## §4. Reading and writing -/

/-- The word for a kind. -/
def InvariantKind.word : InvariantKind → String
  | .echidna => "echidna"
  | .bug => "bug"
  | .typedBug => "typed_bug"
  | .scribble => "scribble"

/-- The kind of a word. -/
def InvariantKind.ofWord? : String → Option InvariantKind
  | "echidna" => some .echidna
  | "bug" => some .bug
  | "typed_bug" => some .typedBug
  | "scribble" => some .scribble
  | _ => none

/-- A kind is written as its word. An object whose only field has the word for its key and null for
its value is read as well. -/
instance : Recorded InvariantKind where
  encode kind := .string kind.word
  decode
    | .string word => InvariantKind.ofWord? word
    | .object [(word, .null)] => InvariantKind.ofWord? word
    | _ => none

instance : Recorded Invariant where
  encode i := .object (written "name" i.name ++ written "type" i.kind)
  decode w := do
    let s ← w.slots? ["name", "type"]
    return { name := ← s.required "name", kind := ← s.required "type" }

end FuzzBundle
