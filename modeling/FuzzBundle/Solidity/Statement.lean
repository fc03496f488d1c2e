/-
  FuzzBundle.Solidity.Statement — the source text of statements.

  `statementLayout` is the text of a node where a statement is expected. A node that is no
  statement is printed as an expression followed by a semicolon.
-/
import FuzzBundle.Solidity.Expression
import FuzzBundle.Solidity.Assembly

namespace FuzzBundle.Solidity

/-- The statement in a field, or the empty statement. -/
def bodyLayout (inner : Inner) (n : Node) (key : String) : String :=
  (inner.child? .statement n key).getD ";"

/-- Statements in braces, one to a line. -/
def blockLayout (inner : Inner) (n : Node) : String :=
  braced (Text.joinLines (inner.children .statement n "statements"))

/-- A declaration of local variables. Several variables, or one that is left out, stand in
parentheses. -/
def variableStatement (inner : Inner) (n : Node) : String :=
  let names := inner.holes .parameter n "declarations"
  let declared :=
    match n.optionalChildren "declarations", names with
    | [some _], [single] => single
    | _, _ => "(" ++ commaList names ++ ")"
  match inner.child? .expression n "initialValue" with
  | some value => declared ++ " = " ++ value ++ ";"
  | none => declared ++ ";"

/-- A conditional statement. -/
def ifLayout (inner : Inner) (n : Node) : String :=
  "if (" ++ inner.child .expression n "condition" ++ ") " ++ bodyLayout inner n "trueBody"
    ++ ((inner.child? .statement n "falseBody").map (" else " ++ ·)).getD ""

/-- A loop with initialisation and step, both without the semicolons they end in as statements. -/
def forLayout (inner : Inner) (n : Node) : String :=
  let clause (key : String) := Text.trimEndChar ';' (inner.child .statement n key)
  "for (" ++ clause "initializationExpression" ++ "; " ++ inner.child .expression n "condition"
    ++ "; " ++ clause "loopExpression" ++ ") " ++ bodyLayout inner n "body"

/-- The first clause of a `try`: what the call returns, and what is done with it. -/
def successClause (inner : Inner) (clause : Node) : String :=
  ((parametersIfAny? inner clause "parameters").map (" returns " ++ ·)).getD "" ++ " "
    ++ bodyLayout inner clause "block"

/-- A further clause of a `try`. -/
def catchClause (inner : Inner) (clause : Node) : String :=
  " catch " ++ clause.string "errorName"
    ++ ((parametersIfAny? inner clause "parameters").map (· ++ " ")).getD ""
    ++ bodyLayout inner clause "block"

/-- The clauses of a `try`. -/
def clausesLayout (inner : Inner) : List Node → String
  | [] => ""
  | first :: rest => successClause inner first ++ String.join (rest.map (catchClause inner))

/-- Inline assembly: its flags, and its tree or else its text. -/
def assemblyLayout (n : Node) : String :=
  let flags := (n.strings "flags").map Quoted.literal
  let start := if flags.isEmpty then "assembly" else "assembly (" ++ commaList flags ++ ")"
  match n.child? "AST" with
  | some body => start ++ " " ++ Assembly.print body
  | none => start ++ " " ++ Text.trim ((n.string? "operations").getD "\x7b\x7d")

/-- The text of a node where a statement is expected. -/
def statementLayout (inner : Inner) (n : Node) : String :=
  let sub := inner.child .expression n
  match n.kind with
  | .block => blockLayout inner n
  | .uncheckedBlock => "unchecked " ++ blockLayout inner n
  | .expressionStatement => sub "expression" ++ ";"
  | .variableDeclarationStatement => variableStatement inner n
  | .ifStatement => ifLayout inner n
  | .forStatement => forLayout inner n
  | .whileStatement => "while (" ++ sub "condition" ++ ") " ++ bodyLayout inner n "body"
  | .doWhileStatement => "do " ++ bodyLayout inner n "body" ++ " while (" ++ sub "condition" ++ ");"
  | .returnStatement =>
    match inner.child? .expression n "expression" with
    | some value => "return " ++ value ++ ";"
    | none => "return;"
  | .emitStatement => "emit " ++ sub "eventCall" ++ ";"
  | .revertStatement => "revert " ++ sub "errorCall" ++ ";"
  | .tryStatement => "try " ++ sub "externalCall" ++ clausesLayout inner (n.children "clauses")
  | .breakStatement => "break;"
  | .continueStatement => "continue;"
  | .throwStatement => "throw;"
  | .placeholderStatement => "_;"
  | .inlineAssembly => assemblyLayout n
  | _ => expressionLayout inner n ++ ";"

theorem clausesLayout_congr {inner inner' : Inner} {height : Nat} {clauses : List Node}
    (lower : ∀ c ∈ clauses, c.height < height) (agree : Inner.AgreeBelow height inner inner') :
    clausesLayout inner clauses = clausesLayout inner' clauses := by
  have below (c : Node) (hc : c ∈ clauses) : Inner.AgreeBelow c.height inner inner' :=
    agree.mono (Nat.le_of_lt (lower c hc))
  cases clauses with
  | nil => rfl
  | cons first rest =>
    have hf := below first (by simp)
    have hr : rest.map (catchClause inner) = rest.map (catchClause inner') := by
      refine List.map_congr_left fun c hc => ?_
      have h := below c (by simp [hc])
      simp only [catchClause, bodyLayout, h.parametersIfAny?, h.child?]
    simp only [clausesLayout, successClause, bodyLayout, hf.parametersIfAny?, hf.child?, hr]

theorem statementLayout_congr {inner inner' : Inner} {n : Node}
    (agree : Inner.AgreeBelow n.height inner inner') :
    statementLayout inner n = statementLayout inner' n := by
  simp only [statementLayout, blockLayout, variableStatement, ifLayout, forLayout, bodyLayout,
    agree.child, agree.child?, agree.children, agree.holes, expressionLayout_congr agree,
    clausesLayout_congr (fun c hc => Node.height_lt_of_mem_children hc) agree]

end FuzzBundle.Solidity
