/-
  FuzzBundle.Solidity.Writer — the source text of nodes.

  A `Writer` prints syntax nodes as source text in a normal layout: four spaces of indentation, one
  statement to a line. It knows one thing about the source unit, whether constructors show a
  visibility.

  The text of a node is its layout around the texts of the nodes inside (`Writer.print_eq`), at
  every place and for every node. The definition counts down the height of the node, and that
  equation is what the rest of the library uses.
-/
import FuzzBundle.Solidity.Declaration

namespace FuzzBundle

/-- How source text is written. -/
structure Writer where
  constructorVisibility : Bool := false
  deriving DecidableEq, Repr, Inhabited

namespace Writer

open Solidity

/-- The writer that suits a source unit. -/
def forUnit (unit : Node) : Writer := ⟨Pragma.wantsConstructorVisibility unit⟩

/-- The text of a node at a place, for nodes of at most the given height. -/
def printWithin (w : Writer) : Nat → Inner
  | 0, _, _ => ""
  | height + 1, place, n => layout w.constructorVisibility (printWithin w height) place n

/-- The text of a node at a place. -/
def print (w : Writer) (place : Place) (n : Node) : String := w.printWithin n.height place n

theorem printWithin_eq {w : Writer} {height : Nat} {n : Node} (h : n.height ≤ height)
    (place : Place) : w.printWithin height place n = w.print place n := by
  have key : ∀ (a b : Nat) (place : Place) (n : Node), n.height ≤ a → n.height ≤ b →
      w.printWithin a place n = w.printWithin b place n := by
    intro a
    induction a with
    | zero => intro b place n ha; have := Assembly.height_pos n; omega
    | succ a ih =>
      intro b place n ha hb
      cases b with
      | zero => have := Assembly.height_pos n; omega
      | succ b =>
        exact layout_congr (fun place c hc => ih b place c (by omega) (by omega)) place
  exact key _ _ _ n h (Nat.le_refl _)

/-- The text of a node is its layout around the texts of the nodes inside. -/
theorem print_eq (w : Writer) (place : Place) (n : Node) :
    w.print place n = layout w.constructorVisibility w.print place n := by
  have h : n.height = (n.height - 1) + 1 := by have := Assembly.height_pos n; omega
  rw [print, h, printWithin]
  exact layout_congr (fun place c hc => printWithin_eq (by omega) place) place

/-! ## The forms of a node -/

/-- A node as the declaration, type name, statement or expression it is. -/
def write (w : Writer) (n : Node) : String := w.print .anywhere n

/-- A node as a statement. -/
def statement (w : Writer) (n : Node) : String := w.print .statement n

/-- A node as an expression. -/
def expression (w : Writer) (n : Node) : String := w.print .expression n

/-- A node as a type name. -/
def typeName (w : Writer) (n : Node) : String := w.print .typeName n

/-- A node as a parameter. -/
def parameter (w : Writer) (n : Node) : String := w.print .parameter n

/-- A node as a list of parameters. -/
def parameters (w : Writer) (n : Node) : String := w.print .parameterList n

/-- A node as a state variable. -/
def stateVariable (w : Writer) (n : Node) : String := stateVariableLayout w.print n

/-- A node as a constant at file level. -/
def freeVariable (w : Writer) (n : Node) : String := freeVariableLayout w.print n

/-- A node as a base of a contract. -/
def inheritance (w : Writer) (n : Node) : String := invocationLayout w.print n "baseName"

/-- What a contract is: a contract, an interface or a library. Older trees do not say. -/
def contractKind (n : Node) : String := (n.string? "contractKind").getD "contract"

end Writer

end FuzzBundle
