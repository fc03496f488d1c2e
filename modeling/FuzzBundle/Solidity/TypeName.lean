/-
  FuzzBundle.Solidity.TypeName — the source text of type names.

  `typeNameLayout` covers the nodes that name a type and identifiers; what any other node looks like
  where a type is expected is decided in `FuzzBundle.Solidity.Expression`.
-/
import FuzzBundle.Solidity.Layout

namespace FuzzBundle.Solidity

/-- An elementary type: its keyword, followed by `payable` where the node says so and the keyword
does not. -/
def elementaryType (n : Node) : String :=
  if n.string? "stateMutability" = some "payable" ∧ ¬ Text.endsWith "payable" n.name then
    n.name ++ " payable"
  else n.name

/-- A type as a compiler describes it, without the category in front and the locations behind. -/
def withoutCategory (description : String) : String :=
  let categories := ["struct ", "contract ", "enum ", "library "]
  let named :=
    match categories.find? (Text.startsWith · description) with
    | some category => Text.dropStart category description
    | none => description
  Text.trimEndText " memory" (Text.trimEndText " storage ref" named)

/-- A type defined by its user: the name of its path, or its own name, or what the compiler says
about it. -/
def userDefinedType (n : Node) : String :=
  match n.child? "pathNode" with
  | some path => path.name
  | none =>
    if n.name ≠ "" then n.name
    else
      match (((n.value? "typeDescriptions").bind (·.field? "typeString")).bind Json.string?) with
      | some description => withoutCategory description
      | none => ""

/-- One side of a mapping: the type and the name it may have. -/
def mappingSide (inner : Inner) (n : Node) (typeKey nameKey : String) : String :=
  let type := inner.child .anywhere n typeKey
  match n.string? nameKey with
  | some name => if name = "" then type else type ++ " " ++ name
  | none => type

/-- A function type: parameters, visibility unless internal, mutability, results. -/
def functionType (inner : Inner) (n : Node) : String :=
  let visibility := n.string "visibility"
  words (
    ["function " ++ parametersOrNone inner n "parameterTypes"]
      ++ (if visibility = "internal" then [] else unlessEmpty visibility)
      ++ (stateMutability? n).toList
      ++ ((parametersIfAny? inner n "returnParameterTypes").map ("returns " ++ ·)).toList)

/-- The text of a node that names a type, or of an identifier. -/
def typeNameLayout (inner : Inner) (n : Node) : String :=
  match n.kind with
  | .elementaryTypeName => elementaryType n
  | .userDefinedTypeName => userDefinedType n
  | .identifierPath | .identifier => n.name
  | .arrayTypeName =>
    inner.child .anywhere n "baseType" ++ "[" ++ inner.child .expression n "length" ++ "]"
  | .mapping =>
    "mapping(" ++ mappingSide inner n "keyType" "keyName" ++ " => "
      ++ mappingSide inner n "valueType" "valueName" ++ ")"
  | .functionTypeName => functionType inner n
  | _ => ""

theorem typeNameLayout_congr {inner inner' : Inner} {n : Node}
    (agree : Inner.AgreeBelow n.height inner inner') :
    typeNameLayout inner n = typeNameLayout inner' n := by
  simp only [typeNameLayout, mappingSide, functionType, agree.child, agree.parametersIfAny?,
    agree.parametersOrNone]

end FuzzBundle.Solidity
