/-
  FuzzBundle.Project.Workshop — running build tools in the folder of a project.

  A tool is whatever a `Toolbox` says that a program does: it may change the folder, write an
  error text, and end well or not. The workshop notes which tools were started.
-/
import FuzzBundle.Project.Basic

namespace FuzzBundle

/-- What a tool did: the folder afterwards, its error output, and how it ended. -/
structure ToolRun where
  tree : Tree
  errors : Content
  status : ExitStatus

/-- What programs do when they are run with some arguments in a folder. -/
abbrev Toolbox := (program : String) → (arguments : List String) → Tree → Launch ToolRun

/-- A project and the arguments of the tools that were started in it, in this order. -/
structure Workshop where
  project : Project
  calls : List (List String)

namespace Workshop

/-- What a tool said about its failure: its error text, or how it ended when that is blank. -/
def failureText (r : ToolRun) : String :=
  let text := Text.trim r.errors.shownText
  if text = "" then "exited with " ++ r.status.text else text

/-- Runs a tool. A project without a folder has no place to run it in. -/
def run (w : Workshop) (toolbox : Toolbox) (program : String) (arguments : List String) :
    Except ProjectError Unit × Workshop :=
  match w.project.tree? with
  | none => (.error (.toolNotStarted program (w.project.wording.unlisted w.project.path)), w)
  | some tree =>
    match toolbox program arguments tree with
    | .refused reason => (.error (.toolNotStarted program reason), w)
    | .ran r =>
      let after : Workshop :=
        ⟨{ w.project with tree? := some r.tree }, w.calls ++ [arguments]⟩
      if r.status.success then (.ok (), after)
      else (.error (.toolFailed (program :: arguments) (failureText r)), after)

/-- The entries of a folder in the project. -/
def folder? (w : Workshop) (names : List String) : Option (List (String × Tree)) :=
  w.project.tree?.bind (·.folder? names)

/-- The workshop after a folder in the project was removed. What is no folder stays. -/
def removeFolder (w : Workshop) (name : String) : Workshop :=
  if (w.folder? [name]).isSome then
    { w with project := { w.project with tree? := w.project.tree?.map (·.remove [name]) } }
  else w

end Workshop

end FuzzBundle
