/-
  FuzzBundle.Solidity.Assembly — the source text of inline assembly.

  Assembly nodes hold assembly nodes only, so the text of one is found by recursion on its height. A
  node of any other kind has the empty text.
-/
import FuzzBundle.Solidity.Layout
import FuzzBundle.Text.Quoted

namespace FuzzBundle.Solidity.Assembly

/-- A literal: a quoted string, the bytes of one, or the value as it is written. -/
def literalLayout (n : Node) : String :=
  match n.string "kind", n.string? "value" with
  | "string", some value => Quoted.literal value
  | "string", none => "hex\"" ++ n.string "hexValue" ++ "\""
  | _, some value => value
  | _, none => n.string "hexValue"

/-- A declared name, with its type if it has one. -/
def typedName (n : Node) : String :=
  let type := n.string "type"
  if type = "" then n.name else n.name ++ ":" ++ type

/-- The text of a node, given the texts of the nodes inside. -/
def layout (inner : Node → String) (n : Node) : String :=
  let sub (key : String) := ((n.child? key).map inner).getD ""
  let subs (key : String) := (n.children key).map inner
  let list (key : String) := commaList (subs key)
  match n.kind with
  | .yulBlock => braced (Text.joinLines (subs "statements"))
  | .yulVariableDeclaration =>
    match n.child? "value" with
    | some _ => "let " ++ list "variables" ++ " := " ++ sub "value"
    | none => "let " ++ list "variables"
  | .yulAssignment => list "variableNames" ++ " := " ++ sub "value"
  | .yulExpressionStatement => sub "expression"
  | .yulFunctionCall => sub "functionName" ++ "(" ++ list "arguments" ++ ")"
  | .yulIdentifier => n.name
  | .yulTypedName => typedName n
  | .yulLiteral => literalLayout n
  | .yulIf => "if " ++ sub "condition" ++ " " ++ sub "body"
  | .yulSwitch => Text.joinLines (("switch " ++ sub "expression") :: subs "cases")
  | .yulCase =>
    if n.string? "value" = some "default" then "default " ++ sub "body"
    else "case " ++ sub "value" ++ " " ++ sub "body"
  | .yulForLoop =>
    "for " ++ sub "pre" ++ " " ++ sub "condition" ++ " " ++ sub "post" ++ " " ++ sub "body"
  | .yulFunctionDefinition =>
    let returns := list "returnVariables"
    "function " ++ n.name ++ "(" ++ list "parameters" ++ ")"
      ++ (if returns = "" then "" else " -> " ++ returns) ++ " " ++ sub "body"
  | .yulBreak => "break"
  | .yulContinue => "continue"
  | .yulLeave => "leave"
  | _ => ""

/-- The text of a node whose height is at most the given one. -/
def printWithin : Nat → Node → String
  | 0, _ => ""
  | height + 1, n => layout (printWithin height) n

/-- The source text of an assembly node. -/
def print (n : Node) : String := printWithin n.height n

/-! ## The equation of the text -/

theorem layout_congr {inner inner' : Node → String} {n : Node}
    (agree : ∀ c : Node, c.height < n.height → inner c = inner' c) :
    layout inner n = layout inner' n := by
  have child (key : String) : (n.child? key).map inner = (n.child? key).map inner' := by
    cases h : n.child? key with
    | none => rfl
    | some c => simp [agree c (Node.height_lt_of_child? h)]
  have children (key : String) : (n.children key).map inner = (n.children key).map inner' :=
    List.map_congr_left fun c hc => agree c (Node.height_lt_of_mem_children hc)
  simp only [layout, child, children]

theorem height_pos (n : Node) : 0 < n.height := by
  rw [Node.height, Node.toJson, Json.height]
  omega

theorem printWithin_eq {height : Nat} {n : Node} (h : n.height ≤ height) :
    printWithin height n = print n := by
  have key : ∀ (a b : Nat) (n : Node), n.height ≤ a → n.height ≤ b →
      printWithin a n = printWithin b n := by
    intro a
    induction a with
    | zero => intro b n ha; have := height_pos n; omega
    | succ a ih =>
      intro b n ha hb
      cases b with
      | zero => have := height_pos n; omega
      | succ b =>
        exact layout_congr fun c hc => ih b c (by omega) (by omega)
  exact key _ _ n h (Nat.le_refl _)

/-- The text of a node is its layout around the texts of the nodes inside. -/
theorem print_eq (n : Node) : print n = layout print n := by
  have h : n.height = (n.height - 1) + 1 := by have := height_pos n; omega
  rw [print, h, printWithin]
  exact layout_congr fun c hc => printWithin_eq (by omega)

end FuzzBundle.Solidity.Assembly
