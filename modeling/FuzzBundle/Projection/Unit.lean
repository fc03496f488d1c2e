/-
  FuzzBundle.Projection.Unit — taking source files apart.

  `Projection.ofOutput` takes every file of a compiler output apart. A contract becomes a
  `ContractProjection`; the members that have no place of their own are printed into a header,
  grouped by kind, and within a group they stand in the order of the source.
-/
import FuzzBundle.Ast.TreeError
import FuzzBundle.Compiler.Output
import FuzzBundle.Projection.Basic
import FuzzBundle.Solidity.Writer

namespace FuzzBundle.Projection

/-! ## §1. Headers -/

/-- The kinds of declarations in the header of a unit, in the order of their groups. -/
def unitHeaderKinds : List Kind :=
  [.pragmaDirective, .importDirective, .enumDefinition, .structDefinition,
    .userDefinedValueTypeDefinition, .usingForDirective, .variableDeclaration, .errorDefinition,
    .functionDefinition]

/-- The kinds of members in the header of a contract, in the order of their groups. -/
def contractHeaderKinds : List Kind :=
  [.usingForDirective, .enumDefinition, .userDefinedValueTypeDefinition, .errorDefinition,
    .eventDefinition, .structDefinition]

/-- A declaration in a header. A variable there is a constant at file level. -/
def headerText (w : Writer) (n : Node) : String :=
  if n.kind = .variableDeclaration then w.freeVariable n else w.write n

/-- The texts that are not empty, one to a line. -/
def joinPresent (texts : List String) : String := Text.joinLines (texts.filter (· ≠ ""))

/-- The members of one kind, one to a line. -/
def groupText (w : Writer) (parent : Node) (kind : Kind) : String :=
  joinPresent ((parent.membersOf kind).map (headerText w))

/-- The members of some kinds, group by group. -/
def headerOf (w : Writer) (parent : Node) (kinds : List Kind) : String :=
  joinPresent (kinds.map (groupText w parent))

/-! ## §2. Members -/

/-- The documentation of a declaration. -/
def docsOf (n : Node) : String := Solidity.documentation (n.value? "documentation")

/-- The type of a variable, empty where none is declared. -/
def typeOf (w : Writer) (n : Node) : String := ((n.child? "typeName").map w.typeName).getD ""

/-- A state variable. -/
def ofVariable (w : Writer) (n : Node) : VariableProjection where
  name := n.name
  docs := docsOf n
  type := typeOf w n
  body := w.stateVariable n

/-- The parameters in a field of a function. -/
def parametersOf (w : Writer) (n : Node) (key : String) : List ParameterProjection :=
  match n.child? key with
  | some list => (list.children "parameters").map fun p => ⟨p.name, typeOf w p⟩
  | none => []

/-- Whether a function has a body. Older trees do not say, and then the body is looked for. -/
def isImplemented (n : Node) : Bool :=
  match n.value? "implemented" with
  | some value => value.bool?.getD false
  | none => (n.child? "body").isSome

/-- A function. -/
def ofFunction (w : Writer) (n : Node) : FunctionProjection where
  name := n.name
  docs := docsOf n
  args := parametersOf w n "parameters"
  rets := parametersOf w n "returnParameters"
  source := w.write n
  isConstructor := Solidity.isConstructor n
  isImplemented := isImplemented n
  visibility := n.string "visibility"
  isVirtual := n.flag "virtual"

/-- A contract. -/
def ofContract (w : Writer) (n : Node) : ContractProjection where
  name := n.name
  docs := docsOf n
  kind := Writer.contractKind n
  isAbstract := n.flag "abstract"
  bases := (n.children "baseContracts").map w.inheritance
  header := headerOf w n contractHeaderKinds
  modifiers := (n.membersOf .modifierDefinition).map w.write
  stateVariables := (n.membersOf .variableDeclaration).map (ofVariable w)
  functions := (n.membersOf .functionDefinition).map (ofFunction w)

/-! ## §3. Units and outputs -/

/-- A source unit. -/
def ofUnit (w : Writer) (n : Node) : UnitProjection where
  header := headerOf w n unitHeaderKinds
  contracts := (n.membersOf .contractDefinition).map (ofContract w)

/-- The source unit that the tree of a file is. -/
def unitOf (file : String) (source : SourceOutput) : Except TreeError Node :=
  match source.tree? with
  | none => .error (.missingTree file)
  | some tree =>
    match Node.ofJson? tree with
    | some n => if n.kind = .sourceUnit then .ok n else .error (.unexpectedRoot n.nodeType)
    | none => .error (.unexpectedRoot "<none>")

/-- A file. -/
def ofFile (file : String) (source : SourceOutput) : Except TreeError UnitProjection :=
  (unitOf file source).map fun unit => ofUnit (.forUnit unit) unit

/-- Does something for the value of every entry, unless one of them fails. -/
def traverse (f : String → α → Except ε β) : List (String × α) → Except ε (List (String × β))
  | [] => .ok []
  | (key, a) :: rest =>
    match f key a with
    | .error e => .error e
    | .ok b =>
      match traverse f rest with
      | .error e => .error e
      | .ok bs => .ok ((key, b) :: bs)

/-- Every file of an output, unless the tree of one is missing or no source unit. The first such
file in the order of names is reported. -/
def ofOutput (output : CompilerOutput) : Except TreeError (Dict UnitProjection) :=
  (traverse ofFile output.sources.toList).map Dict.ofList

end FuzzBundle.Projection
