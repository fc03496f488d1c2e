/-
  FuzzBundle.Solidity.Expression — the source text of expressions.

  `expressionLayout` is the text of a node where an expression is expected. A node of a kind that
  is no expression has the empty text there.
-/
import FuzzBundle.Solidity.TypeName
import FuzzBundle.Text.Quoted

namespace FuzzBundle.Solidity

/-! ## §1. Literals -/

/-- A string literal written in hexadecimal digits. -/
def hexLiteral (n : Node) : String := "hex\"" ++ n.string "hexValue" ++ "\""

/-- A literal. A string with characters outside ASCII is written by its bytes. -/
def literalLayout (n : Node) : String :=
  let value := n.string "value"
  match n.string "kind" with
  | "number" =>
    match n.string? "subdenomination" with
    | some unit => value ++ " " ++ unit
    | none => value
  | "bool" => (n.string? "value").getD "false"
  | "hexString" => hexLiteral n
  | "unicodeString" => "unicode" ++ Quoted.literal value
  | _ =>
    match n.string? "value" with
    | some text => if text.toList.all (·.toNat < 128) then Quoted.literal text else hexLiteral n
    | none => hexLiteral n

/-! ## §2. Arguments -/

/-- Positional arguments. -/
def arguments (inner : Inner) (n : Node) (key : String) : String :=
  commaList (inner.children .expression n key)

/-- Values with the names they are given under, in braces. A value without a name is dropped. -/
def namedArguments (inner : Inner) (n : Node) (key : String) : String :=
  "\x7b" ++ commaList (List.zipWith (fun value name => name ++ ": " ++ value)
    (inner.children .expression n key) (n.strings "names")) ++ "\x7d"

/-- The arguments of a call, positional unless the call names them. -/
def callArguments (inner : Inner) (n : Node) (key : String) : String :=
  if (n.strings "names").isEmpty then arguments inner n key else namedArguments inner n key

/-! ## §3. Expressions -/

/-- Two operands with the operator between them. -/
def binaryLayout (inner : Inner) (n : Node) (left right : String) : String :=
  inner.child .expression n left ++ " " ++ n.string "operator" ++ " "
    ++ inner.child .expression n right

/-- An operand with its operator in front or behind. -/
def unaryLayout (inner : Inner) (n : Node) : String :=
  let operator := n.string "operator"
  let operand := inner.child .expression n "subExpression"
  if ¬ n.flag "prefix" then operand ++ operator
  else if operator = "delete" then "delete " ++ operand
  else operator ++ operand

/-- Components in parentheses, or in brackets for an array. -/
def tupleLayout (inner : Inner) (n : Node) : String :=
  let components := commaList (inner.holes .expression n "components")
  if n.flag "isInlineArray" then "[" ++ components ++ "]" else "(" ++ components ++ ")"

/-- The text of a node where an expression is expected. -/
def expressionLayout (inner : Inner) (n : Node) : String :=
  let sub := inner.child .expression n
  match n.kind with
  | .identifier => n.name
  | .literal => literalLayout n
  | .assignment => binaryLayout inner n "leftHandSide" "rightHandSide"
  | .binaryOperation => binaryLayout inner n "leftExpression" "rightExpression"
  | .unaryOperation => unaryLayout inner n
  | .conditional =>
    sub "condition" ++ " ? " ++ sub "trueExpression" ++ " : " ++ sub "falseExpression"
  | .functionCall => sub "expression" ++ "(" ++ callArguments inner n "arguments" ++ ")"
  | .functionCallOptions => sub "expression" ++ namedArguments inner n "options"
  | .memberAccess => sub "expression" ++ "." ++ n.string "memberName"
  | .indexAccess => sub "baseExpression" ++ "[" ++ sub "indexExpression" ++ "]"
  | .indexRangeAccess =>
    sub "baseExpression" ++ "[" ++ sub "startExpression" ++ ":" ++ sub "endExpression" ++ "]"
  | .newExpression => "new " ++ inner.child .typeName n "typeName"
  | .elementaryTypeNameExpression =>
    (inner.child? .typeName n "typeName").getD (n.string "typeName")
  | .tupleExpression => tupleLayout inner n
  | .elementaryTypeName | .userDefinedTypeName | .identifierPath | .arrayTypeName | .mapping
  | .functionTypeName => typeNameLayout inner n
  | _ => ""

/-- The text of a node where a type name is expected. A node that names no type is printed as the
expression it is. -/
def typeLayout (inner : Inner) (n : Node) : String :=
  if n.kind.isTypeName ∨ n.kind = .identifier then typeNameLayout inner n
  else expressionLayout inner n

theorem expressionLayout_congr {inner inner' : Inner} {n : Node}
    (agree : Inner.AgreeBelow n.height inner inner') :
    expressionLayout inner n = expressionLayout inner' n := by
  simp only [expressionLayout, binaryLayout, unaryLayout, tupleLayout, callArguments, arguments,
    namedArguments, agree.child, agree.child?, agree.children, agree.holes,
    typeNameLayout_congr agree]

theorem typeLayout_congr {inner inner' : Inner} {n : Node}
    (agree : Inner.AgreeBelow n.height inner inner') :
    typeLayout inner n = typeLayout inner' n := by
  simp only [typeLayout, typeNameLayout_congr agree, expressionLayout_congr agree]

end FuzzBundle.Solidity
