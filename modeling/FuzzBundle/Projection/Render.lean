/-
  FuzzBundle.Projection.Render — putting projections together into source text.

  A contract is printed with its header, state variables, modifiers and functions, in this order and
  indented one step, each documented declaration right after its documentation. A unit is its
  header and its contracts with an empty line between them.
-/
import FuzzBundle.Projection.Basic
import FuzzBundle.Text.Blank
import FuzzBundle.Text.Lines

namespace FuzzBundle

/-- Documentation as a comment. A text that is no comment yet gets `///` before each of its lines.
-/
def commented (docs : String) : String :=
  if Text.startsWith "//" docs ∨ Text.startsWith "/*" docs then docs
  else Text.joinLines ((Text.lines docs).map ("/// " ++ ·))

/-- A declaration after its documentation, if it has one. -/
def withDocs (docs text : String) : String :=
  if docs = "" then text else commented docs ++ "\n" ++ text

namespace ContractProjection

/-- The line that opens a contract, up to its body. -/
def opening (c : ContractProjection) : String :=
  (if c.isAbstract then "abstract " else "")
    ++ (if c.kind = "" then "contract" else c.kind) ++ " " ++ c.name
    ++ (if c.bases.isEmpty then "" else " is " ++ String.intercalate ", " c.bases)

/-- The members of a contract in the order of its text. -/
def members (c : ContractProjection) : List String :=
  (if c.header = "" then [] else [c.header])
    ++ c.stateVariables.map (fun v => withDocs v.docs v.body)
    ++ c.modifiers
    ++ c.functions.map (fun f => withDocs f.docs f.source)

/-- The source text of a contract. -/
def render (c : ContractProjection) : String :=
  let body :=
    if c.members.isEmpty then "\x7b\x7d"
    else "\x7b\n" ++ Text.indent (Text.joinLines c.members) ++ "\n\x7d"
  withDocs c.docs "" ++ c.opening ++ " " ++ body

end ContractProjection

/-- The source text of a unit. -/
def UnitProjection.render (u : UnitProjection) : String :=
  let sections := (if u.header = "" then [] else [u.header]) ++ u.contracts.map (·.render)
  String.intercalate "\n\n" sections ++ "\n"

end FuzzBundle
