/-
  FuzzBundle.Solidity.Layout — what the source text of every kind of node is made of.

  The text of a node is put together from the texts of nodes below it. How those are printed is a
  parameter, `Inner`: it gives the text of a node at a place, where the place says what the node is
  printed as. Each layout function of the neighbouring modules lays out one node and leaves its
  inner nodes to the parameter; `FuzzBundle.Solidity.Writer` ties the knot.

  The texts of inner nodes are obtained through the four functions of `Inner` below, and each of
  them asks only for nodes lower than the one that is laid out. That is what `Inner.AgreeBelow` is
  for: two parameters that agree on all lower nodes give the same layout.
-/
import FuzzBundle.Ast.Node
import FuzzBundle.Text.Lines
import FuzzBundle.Text.Blank

namespace FuzzBundle.Solidity

/-! ## §1. Places -/

/-- What a node is printed as. -/
inductive Place where
  | anywhere
  | statement
  | expression
  | typeName
  | parameter
  | parameterList
  | overrides
  | modifierCall
  deriving DecidableEq, Repr

/-- How the nodes inside another one are printed. -/
abbrev Inner := Place → Node → String

namespace Inner

/-- The text of the node in a field, if there is one. -/
def child? (inner : Inner) (place : Place) (n : Node) (key : String) : Option String :=
  (n.child? key).map (inner place)

/-- The text of the node in a field, or the empty text. -/
def child (inner : Inner) (place : Place) (n : Node) (key : String) : String :=
  (inner.child? place n key).getD ""

/-- The texts of the nodes in a list. -/
def children (inner : Inner) (place : Place) (n : Node) (key : String) : List String :=
  (n.children key).map (inner place)

/-- The texts of the items of a list, empty for an item that is no node. -/
def holes (inner : Inner) (place : Place) (n : Node) (key : String) : List String :=
  (n.optionalChildren key).map fun item => (item.map (inner place)).getD ""

/-- Two ways to print inner nodes that give the same text for every node below a height. -/
def AgreeBelow (height : Nat) (inner inner' : Inner) : Prop :=
  ∀ place (c : Node), c.height < height → inner place c = inner' place c

theorem AgreeBelow.mono {h h' : Nat} {inner inner' : Inner} (agree : AgreeBelow h inner inner')
    (le : h' ≤ h) : AgreeBelow h' inner inner' :=
  fun place c hc => agree place c (Nat.lt_of_lt_of_le hc le)

variable {inner inner' : Inner} {n : Node}

theorem AgreeBelow.child? (agree : AgreeBelow n.height inner inner') (place : Place)
    (key : String) : inner.child? place n key = inner'.child? place n key := by
  unfold Inner.child?
  cases h : n.child? key with
  | none => rfl
  | some c => simp [agree place c (Node.height_lt_of_child? h)]

theorem AgreeBelow.child (agree : AgreeBelow n.height inner inner') (place : Place)
    (key : String) : inner.child place n key = inner'.child place n key := by
  unfold Inner.child
  rw [agree.child?]

theorem AgreeBelow.children (agree : AgreeBelow n.height inner inner') (place : Place)
    (key : String) : inner.children place n key = inner'.children place n key :=
  List.map_congr_left fun c hc => agree place c (Node.height_lt_of_mem_children hc)

theorem AgreeBelow.holes (agree : AgreeBelow n.height inner inner') (place : Place)
    (key : String) : inner.holes place n key = inner'.holes place n key := by
  refine List.map_congr_left fun item hi => ?_
  cases item with
  | none => rfl
  | some c => simp [agree place c (Node.height_lt_of_mem_optionalChildren hi)]

end Inner

/-! ## §2. Pieces of layout -/

/-- Texts with a comma and a blank between them. -/
def commaList (items : List String) : String := String.intercalate ", " items

/-- Words with one blank between them. -/
def words (items : List String) : String := String.intercalate " " items

/-- A body in braces: on lines of its own, one step to the right, or nothing at all when it is
blank. -/
def braced (body : String) : String :=
  if Text.trim body = "" then "\x7b\x7d" else "\x7b\n" ++ Text.indent body ++ "\n\x7d"

/-- A text as a list with one element, unless it is empty. -/
def unlessEmpty (text : String) : List String := if text = "" then [] else [text]

/-- The word for what a function may do with the state. Trees without the word carry flags. -/
def stateMutability? (n : Node) : Option String :=
  match n.string? "stateMutability" with
  | some "nonpayable" => none
  | some mutability => some mutability
  | none =>
    if n.flag "payable" then some "payable" else if n.flag "constant" then some "view" else none

/-- The parameter list in a field, unless it lists no parameter. -/
def parametersIfAny? (inner : Inner) (n : Node) (key : String) : Option String :=
  match n.child? key with
  | some list =>
    if (list.children "parameters").isEmpty then none else inner.child? .parameterList n key
  | none => none

/-- The parameter list in a field, empty when there is none. -/
def parametersOrNone (inner : Inner) (n : Node) (key : String) : String :=
  (inner.child? .parameterList n key).getD "()"

theorem Inner.AgreeBelow.parametersIfAny? {inner inner' : Inner} {n : Node}
    (agree : Inner.AgreeBelow n.height inner inner') (key : String) :
    parametersIfAny? inner n key = parametersIfAny? inner' n key := by
  unfold Solidity.parametersIfAny?
  rw [agree.child?]

theorem Inner.AgreeBelow.parametersOrNone {inner inner' : Inner} {n : Node}
    (agree : Inner.AgreeBelow n.height inner inner') (key : String) :
    parametersOrNone inner n key = parametersOrNone inner' n key := by
  unfold Solidity.parametersOrNone
  rw [agree.child?]

end FuzzBundle.Solidity
