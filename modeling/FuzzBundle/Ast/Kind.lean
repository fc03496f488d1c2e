/-
  FuzzBundle.Ast.Kind — the kinds of syntax nodes.

  A node says its kind in words (`Kind.name`). The kinds listed here have a meaning of their own
  and are found by their word (`Kind.ofName_name`); any other word makes a node of a kind that is
  not handled. Two different words are two different kinds (`Kind.ofName_injective`).
-/

namespace FuzzBundle

/-- What a syntax node is. -/
inductive Kind where
  | sourceUnit
  | pragmaDirective
  | importDirective
  | contractDefinition
  | inheritanceSpecifier
  | usingForDirective
  | structDefinition
  | enumDefinition
  | enumValue
  | userDefinedValueTypeDefinition
  | errorDefinition
  | eventDefinition
  | functionDefinition
  | modifierDefinition
  | modifierInvocation
  | overrideSpecifier
  | variableDeclaration
  | parameterList
  | structuredDocumentation
  | identifierPath
  | elementaryTypeName
  | userDefinedTypeName
  | arrayTypeName
  | mapping
  | functionTypeName
  | block
  | uncheckedBlock
  | expressionStatement
  | variableDeclarationStatement
  | ifStatement
  | forStatement
  | whileStatement
  | doWhileStatement
  | returnStatement
  | emitStatement
  | revertStatement
  | tryStatement
  | tryCatchClause
  | breakStatement
  | continueStatement
  | throwStatement
  | placeholderStatement
  | inlineAssembly
  | assignment
  | binaryOperation
  | unaryOperation
  | conditional
  | functionCall
  | functionCallOptions
  | memberAccess
  | indexAccess
  | indexRangeAccess
  | identifier
  | literal
  | elementaryTypeNameExpression
  | newExpression
  | tupleExpression
  | yulBlock
  | yulVariableDeclaration
  | yulAssignment
  | yulExpressionStatement
  | yulFunctionCall
  | yulIdentifier
  | yulLiteral
  | yulTypedName
  | yulIf
  | yulSwitch
  | yulCase
  | yulForLoop
  | yulFunctionDefinition
  | yulBreak
  | yulContinue
  | yulLeave
  | unhandled (name : String)
  deriving DecidableEq, Repr, Inhabited

namespace Kind

/-- The word by which a node says its kind. -/
def name : Kind → String
  | .sourceUnit => "SourceUnit"
  | .pragmaDirective => "PragmaDirective"
  | .importDirective => "ImportDirective"
  | .contractDefinition => "ContractDefinition"
  | .inheritanceSpecifier => "InheritanceSpecifier"
  | .usingForDirective => "UsingForDirective"
  | .structDefinition => "StructDefinition"
  | .enumDefinition => "EnumDefinition"
  | .enumValue => "EnumValue"
  | .userDefinedValueTypeDefinition => "UserDefinedValueTypeDefinition"
  | .errorDefinition => "ErrorDefinition"
  | .eventDefinition => "EventDefinition"
  | .functionDefinition => "FunctionDefinition"
  | .modifierDefinition => "ModifierDefinition"
  | .modifierInvocation => "ModifierInvocation"
  | .overrideSpecifier => "OverrideSpecifier"
  | .variableDeclaration => "VariableDeclaration"
  | .parameterList => "ParameterList"
  | .structuredDocumentation => "StructuredDocumentation"
  | .identifierPath => "IdentifierPath"
  | .elementaryTypeName => "ElementaryTypeName"
  | .userDefinedTypeName => "UserDefinedTypeName"
  | .arrayTypeName => "ArrayTypeName"
  | .mapping => "Mapping"
  | .functionTypeName => "FunctionTypeName"
  | .block => "Block"
  | .uncheckedBlock => "UncheckedBlock"
  | .expressionStatement => "ExpressionStatement"
  | .variableDeclarationStatement => "VariableDeclarationStatement"
  | .ifStatement => "IfStatement"
  | .forStatement => "ForStatement"
  | .whileStatement => "WhileStatement"
  | .doWhileStatement => "DoWhileStatement"
  | .returnStatement => "Return"
  | .emitStatement => "EmitStatement"
  | .revertStatement => "RevertStatement"
  | .tryStatement => "TryStatement"
  | .tryCatchClause => "TryCatchClause"
  | .breakStatement => "Break"
  | .continueStatement => "Continue"
  | .throwStatement => "Throw"
  | .placeholderStatement => "PlaceholderStatement"
  | .inlineAssembly => "InlineAssembly"
  | .assignment => "Assignment"
  | .binaryOperation => "BinaryOperation"
  | .unaryOperation => "UnaryOperation"
  | .conditional => "Conditional"
  | .functionCall => "FunctionCall"
  | .functionCallOptions => "FunctionCallOptions"
  | .memberAccess => "MemberAccess"
  | .indexAccess => "IndexAccess"
  | .indexRangeAccess => "IndexRangeAccess"
  | .identifier => "Identifier"
  | .literal => "Literal"
  | .elementaryTypeNameExpression => "ElementaryTypeNameExpression"
  | .newExpression => "NewExpression"
  | .tupleExpression => "TupleExpression"
  | .yulBlock => "YulBlock"
  | .yulVariableDeclaration => "YulVariableDeclaration"
  | .yulAssignment => "YulAssignment"
  | .yulExpressionStatement => "YulExpressionStatement"
  | .yulFunctionCall => "YulFunctionCall"
  | .yulIdentifier => "YulIdentifier"
  | .yulLiteral => "YulLiteral"
  | .yulTypedName => "YulTypedName"
  | .yulIf => "YulIf"
  | .yulSwitch => "YulSwitch"
  | .yulCase => "YulCase"
  | .yulForLoop => "YulForLoop"
  | .yulFunctionDefinition => "YulFunctionDefinition"
  | .yulBreak => "YulBreak"
  | .yulContinue => "YulContinue"
  | .yulLeave => "YulLeave"
  | .unhandled name => name

/-- The kinds that have a meaning of their own. -/
def handled : List Kind :=
  [.sourceUnit, .pragmaDirective, .importDirective, .contractDefinition, .inheritanceSpecifier,
    .usingForDirective, .structDefinition, .enumDefinition, .enumValue,
    .userDefinedValueTypeDefinition, .errorDefinition, .eventDefinition, .functionDefinition,
    .modifierDefinition, .modifierInvocation, .overrideSpecifier, .variableDeclaration,
    .parameterList, .structuredDocumentation, .identifierPath, .elementaryTypeName,
    .userDefinedTypeName, .arrayTypeName, .mapping, .functionTypeName, .block, .uncheckedBlock,
    .expressionStatement, .variableDeclarationStatement, .ifStatement, .forStatement,
    .whileStatement, .doWhileStatement, .returnStatement, .emitStatement, .revertStatement,
    .tryStatement, .tryCatchClause, .breakStatement, .continueStatement, .throwStatement,
    .placeholderStatement, .inlineAssembly, .assignment, .binaryOperation, .unaryOperation,
    .conditional, .functionCall, .functionCallOptions, .memberAccess, .indexAccess,
    .indexRangeAccess, .identifier, .literal, .elementaryTypeNameExpression, .newExpression,
    .tupleExpression, .yulBlock, .yulVariableDeclaration, .yulAssignment, .yulExpressionStatement,
    .yulFunctionCall, .yulIdentifier, .yulLiteral, .yulTypedName, .yulIf, .yulSwitch, .yulCase,
    .yulForLoop, .yulFunctionDefinition, .yulBreak, .yulContinue, .yulLeave]

/-- The kind that a word names. -/
def ofName (name : String) : Kind :=
  (handled.find? fun kind => kind.name == name).getD (.unhandled name)

/-- A kind that was read from a word has that word for its name. -/
theorem name_ofName (s : String) : (ofName s).name = s := by
  unfold ofName
  cases h : handled.find? fun kind => kind.name == s with
  | none => rfl
  | some kind => simpa using List.find?_some h

/-- The word of a kind with a meaning of its own names that kind. -/
theorem ofName_name : ∀ kind ∈ handled, ofName kind.name = kind := by decide +kernel

/-- Different words name different kinds. -/
theorem ofName_injective {s t : String} (h : ofName s = ofName t) : s = t := by
  rw [← name_ofName s, ← name_ofName t, h]

/-- Whether nodes of this kind are statements. -/
def isStatement : Kind → Bool
  | .block | .uncheckedBlock | .expressionStatement | .variableDeclarationStatement
  | .ifStatement | .forStatement | .whileStatement | .doWhileStatement | .returnStatement
  | .emitStatement | .revertStatement | .tryStatement | .breakStatement | .continueStatement
  | .throwStatement | .placeholderStatement | .inlineAssembly => true
  | _ => false

/-- Whether nodes of this kind belong to the assembly language. -/
def isAssembly : Kind → Bool
  | .yulBlock | .yulVariableDeclaration | .yulAssignment | .yulExpressionStatement
  | .yulFunctionCall | .yulIdentifier | .yulLiteral | .yulTypedName | .yulIf | .yulSwitch
  | .yulCase | .yulForLoop | .yulFunctionDefinition | .yulBreak | .yulContinue | .yulLeave => true
  | _ => false

/-- Whether nodes of this kind name a type. -/
def isTypeName : Kind → Bool
  | .elementaryTypeName | .userDefinedTypeName | .identifierPath | .arrayTypeName | .mapping
  | .functionTypeName => true
  | _ => false

end Kind

end FuzzBundle
