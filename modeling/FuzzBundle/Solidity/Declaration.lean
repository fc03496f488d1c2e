/-
  FuzzBundle.Solidity.Declaration — the source text of declarations.

  The layouts of directives, definitions, variables and parameters, and `layout`, the text of a
  node at any place.
-/
import FuzzBundle.Solidity.Statement
import FuzzBundle.Solidity.Pragma

namespace FuzzBundle.Solidity

/-! ## §1. Directives -/

/-- One imported symbol, with the name it gets here if that is another one. -/
def importedSymbol? (symbol : Json) : Option String :=
  ((symbol.field? "foreign").bind Node.ofJson?).map fun foreign =>
    match ((symbol.field? "local").bind Json.string?) with
    | some name => if name = "" then foreign.name else foreign.name ++ " as " ++ name
    | none => foreign.name

/-- An import of a whole file, perhaps under a name, or of some of its symbols. -/
def importLayout (n : Node) : String :=
  let file := Quoted.literal (((n.string? "file").orElse fun _ => n.string? "absolutePath").getD "")
  let unitAlias := n.string "unitAlias"
  let symbols := (n.items "symbolAliases").filterMap importedSymbol?
  if unitAlias ≠ "" then "import " ++ file ++ " as " ++ unitAlias ++ ";"
  else if symbols.isEmpty then "import " ++ file ++ ";"
  else "import \x7b " ++ commaList symbols ++ " \x7d from " ++ file ++ ";"

/-- One function attached to a type, perhaps as an operator. -/
def attachedFunction? (inner : Inner) (entry : Json) : Option String :=
  match (entry.field? "function").bind Node.ofJson? with
  | some function => some (inner .typeName function)
  | none =>
    match (entry.field? "definition").bind Node.ofJson?,
      (entry.field? "operator").bind Json.string? with
    | some definition, some operator => some (inner .typeName definition ++ " as " ++ operator)
    | _, _ => none

/-- A library or a list of functions attached to a type. -/
def usingLayout (inner : Inner) (n : Node) : String :=
  let functions := (n.items "functionList").filterMap (attachedFunction? inner)
  let library :=
    (inner.child? .typeName n "libraryName").getD ("\x7b " ++ commaList functions ++ " \x7d")
  let target := (inner.child? .typeName n "typeName").getD "*"
  "using " ++ library ++ " for " ++ target ++ (if n.flag "global" then " global" else "") ++ ";"

/-! ## §2. Variables -/

/-- The type that a variable is declared with. Where none is given the keyword `var` stands. -/
def declaredType (inner : Inner) (n : Node) : String :=
  (inner.child? .typeName n "typeName").getD "var"

/-- A parameter, member of a structure or local variable: type, data location, `indexed`, name. -/
def parameterLayout (inner : Inner) (n : Node) : String :=
  let location := n.string "storageLocation"
  words (
    [declaredType inner n]
      ++ (if location = "default" then [] else unlessEmpty location)
      ++ (if n.flag "indexed" then ["indexed"] else [])
      ++ unlessEmpty n.name)

/-- Parameters in parentheses. -/
def parameterListLayout (inner : Inner) (n : Node) : String :=
  "(" ++ commaList (inner.children .parameter n "parameters") ++ ")"

/-- Whether a variable is constant or immutable. Trees without the word carry a flag. -/
def variableMutability? (n : Node) : Option String :=
  match n.string? "mutability" with
  | some "constant" => some "constant"
  | some "immutable" => some "immutable"
  | some _ => none
  | none => if n.flag "constant" then some "constant" else none

/-- A declaration with the value it starts with, if there is one. -/
def withInitializer (inner : Inner) (n : Node) (declaration : String) : String :=
  match inner.child? .expression n "value" with
  | some value => declaration ++ " = " ++ value ++ ";"
  | none => declaration ++ ";"

/-- A state variable: type, visibility, mutability, override, name. -/
def stateVariableLayout (inner : Inner) (n : Node) : String :=
  withInitializer inner n (words (
    [declaredType inner n]
      ++ unlessEmpty (n.string "visibility")
      ++ (variableMutability? n).toList
      ++ (inner.child? .overrides n "overrides").toList
      ++ [n.name]))

/-- A constant at file level: type, mutability, name. -/
def freeVariableLayout (inner : Inner) (n : Node) : String :=
  withInitializer inner n (words (
    [declaredType inner n] ++ (variableMutability? n).toList ++ [n.name]))

/-! ## §3. Definitions -/

/-- A structure, one member to a line. -/
def structLayout (inner : Inner) (n : Node) : String :=
  "struct " ++ n.name ++ " "
    ++ braced (Text.joinLines ((inner.children .parameter n "members").map (· ++ ";")))

/-- An enumeration. -/
def enumLayout (n : Node) : String :=
  "enum " ++ n.name ++ " \x7b " ++ commaList ((n.children "members").map Node.name) ++ " \x7d"

/-- An event. -/
def eventLayout (inner : Inner) (n : Node) : String :=
  "event " ++ n.name ++ parametersOrNone inner n "parameters"
    ++ (if n.flag "anonymous" then " anonymous" else "") ++ ";"

/-- A base of a contract, or a modifier put on a function: a name, and arguments if it is given
any. -/
def invocationLayout (inner : Inner) (n : Node) (nameKey : String) : String :=
  let name := inner.child .anywhere n nameKey
  match (n.value? "arguments").bind Json.items? with
  | some _ => name ++ "(" ++ arguments inner n "arguments" ++ ")"
  | none => name

/-- What a member overrides. -/
def overrideLayout (inner : Inner) (n : Node) : String :=
  let overridden := inner.children .typeName n "overrides"
  if overridden.isEmpty then "override" else "override(" ++ commaList overridden ++ ")"

/-- A header with its body, or with a semicolon when there is none. -/
def withBody (inner : Inner) (n : Node) (header : String) : String :=
  match inner.child? .statement n "body" with
  | some body => header ++ " " ++ body
  | none => header ++ ";"

/-- Whether a function constructs its contract. -/
def isConstructor (n : Node) : Bool :=
  n.string "kind" == "constructor" || n.flag "isConstructor"

/-- The keyword of a function and its name. An old constructor has the name of its contract. -/
def functionKeyword (n : Node) : String :=
  let kind := n.string "kind"
  if kind = "constructor" ∨ kind = "fallback" ∨ kind = "receive" then kind
  else if isConstructor n ∧ n.name = "" then "constructor"
  else if n.name = "" then "function"
  else "function " ++ n.name

/-- The visibility of a function where it is written: not on functions outside contracts, and on
constructors only where the language version wants it. -/
def functionVisibility (constructorVisibility : Bool) (n : Node) : List String :=
  let shown := if isConstructor n then constructorVisibility else n.string "kind" != "freeFunction"
  if shown then unlessEmpty (n.string "visibility") else []

/-- The header of a function: keyword and parameters, visibility, mutability, `virtual`, override,
modifiers, results. -/
def functionHeader (constructorVisibility : Bool) (inner : Inner) (n : Node) : String :=
  words (
    [functionKeyword n ++ parametersOrNone inner n "parameters"]
      ++ functionVisibility constructorVisibility n
      ++ (stateMutability? n).toList
      ++ (if n.flag "virtual" then ["virtual"] else [])
      ++ (inner.child? .overrides n "overrides").toList
      ++ inner.children .modifierCall n "modifiers"
      ++ ((parametersIfAny? inner n "returnParameters").map ("returns " ++ ·)).toList)

/-- A function. -/
def functionLayout (constructorVisibility : Bool) (inner : Inner) (n : Node) : String :=
  withBody inner n (functionHeader constructorVisibility inner n)

/-- A modifier. -/
def modifierLayout (inner : Inner) (n : Node) : String :=
  withBody inner n (words (
    ["modifier " ++ n.name ++ parametersOrNone inner n "parameters"]
      ++ (if n.flag "virtual" then ["virtual"] else [])
      ++ (inner.child? .overrides n "overrides").toList))

/-! ## §4. Documentation -/

/-- The text of a documentation node as comment lines. -/
def documentationLayout (n : Node) : String :=
  Text.joinLines ((Text.lines (n.string "text")).map ("///" ++ ·))

/-- The documentation that a declaration carries: a text as it is, a node as comment lines. -/
def documentation : Option Json → String
  | some (.string text) => text
  | some value => ((Node.ofJson? value).map documentationLayout).getD ""
  | none => ""

/-! ## §5. Any node -/

/-- The text of a node at a place where anything may stand. -/
def anyLayout (constructorVisibility : Bool) (inner : Inner) (n : Node) : String :=
  match n.kind with
  | .pragmaDirective => Pragma.layout n
  | .importDirective => importLayout n
  | .usingForDirective => usingLayout inner n
  | .structDefinition => structLayout inner n
  | .enumDefinition => enumLayout n
  | .enumValue => n.name
  | .userDefinedValueTypeDefinition =>
    "type " ++ n.name ++ " is " ++ inner.child .anywhere n "underlyingType" ++ ";"
  | .errorDefinition => "error " ++ n.name ++ parametersOrNone inner n "parameters" ++ ";"
  | .eventDefinition => eventLayout inner n
  | .functionDefinition => functionLayout constructorVisibility inner n
  | .modifierDefinition => modifierLayout inner n
  | .modifierInvocation => invocationLayout inner n "modifierName"
  | .overrideSpecifier => overrideLayout inner n
  | .inheritanceSpecifier => invocationLayout inner n "baseName"
  | .variableDeclaration =>
    if n.flag "stateVariable" then stateVariableLayout inner n else parameterLayout inner n
  | .parameterList => parameterListLayout inner n
  | .structuredDocumentation => documentationLayout n
  | kind =>
    if kind.isTypeName then typeLayout inner n
    else if kind.isStatement then statementLayout inner n
    else if kind.isAssembly then Assembly.print n
    else expressionLayout inner n

/-- The text of a node at a place. -/
def layout (constructorVisibility : Bool) (inner : Inner) (place : Place) (n : Node) : String :=
  match place with
  | .anywhere => anyLayout constructorVisibility inner n
  | .statement => statementLayout inner n
  | .expression => expressionLayout inner n
  | .typeName => typeLayout inner n
  | .parameter => parameterLayout inner n
  | .parameterList => parameterListLayout inner n
  | .overrides => overrideLayout inner n
  | .modifierCall => invocationLayout inner n "modifierName"

theorem attachedFunction?_congr {inner inner' : Inner} {entry : Json}
    (agree : Inner.AgreeBelow entry.height inner inner') :
    attachedFunction? inner entry = attachedFunction? inner' entry := by
  have below {key : String} {c : Node} (h : (entry.field? key).bind Node.ofJson? = some c) :
      c.height < entry.height := by
    obtain ⟨value, hv, hc⟩ := Option.bind_eq_some_iff.1 h
    rw [Node.height_of_ofJson? hc]
    cases entry <;> simp only [Json.field?, reduceCtorEq] at hv
    exact Json.height_lt_of_get? hv
  unfold attachedFunction?
  split
  · next f hf => rw [agree _ f (below hf)]
  · split
    · next hf d o hd ho =>
      rw [agree _ d (below hd)]
    · rfl

theorem attachedFunctions_congr {inner inner' : Inner} {height : Nat}
    (agree : Inner.AgreeBelow height inner inner') {entries : List Json}
    (lower : ∀ entry ∈ entries, entry.height < height) :
    entries.filterMap (attachedFunction? inner) = entries.filterMap (attachedFunction? inner') := by
  induction entries with
  | nil => rfl
  | cons entry rest ih =>
    have head := attachedFunction?_congr (agree.mono (Nat.le_of_lt (lower entry (by simp))))
    have tail := ih fun e he => lower e (by simp [he])
    simp only [List.filterMap_cons, head, tail]

theorem layout_congr {constructorVisibility : Bool} {inner inner' : Inner} {n : Node}
    (agree : Inner.AgreeBelow n.height inner inner') (place : Place) :
    layout constructorVisibility inner place n = layout constructorVisibility inner' place n := by
  have entries : (n.items "functionList").filterMap (attachedFunction? inner)
      = (n.items "functionList").filterMap (attachedFunction? inner') :=
    attachedFunctions_congr agree fun _ h => Node.height_lt_of_mem_items h
  simp only [layout, anyLayout, usingLayout, structLayout, eventLayout, functionLayout,
    functionHeader, modifierLayout, withBody, invocationLayout, overrideLayout, arguments,
    stateVariableLayout, withInitializer, declaredType, parameterLayout, parameterListLayout,
    agree.child, agree.child?, agree.children, agree.parametersIfAny?, agree.parametersOrNone,
    expressionLayout_congr agree, typeLayout_congr agree, statementLayout_congr agree, entries]

end FuzzBundle.Solidity
