/-
  FuzzBundle.Workspace.Output — writing documents to files.
-/
import FuzzBundle.Json.Record
import FuzzBundle.Text.Context
import FuzzBundle.Workspace.Lookup

namespace FuzzBundle

/-- Why a file could not be written. -/
structure OutputError where
  path : String
  reason : String
  deriving DecidableEq, Repr

/-- The text of an error. -/
def OutputError.message (e : OutputError) : String :=
  Text.withContext ("Failed to write " ++ e.path) e.reason

/-- Writes a record as an indented document to the file that a path names in a folder. The path is
shown in messages after `above`. -/
def Tree.writeRecord [Recorded α] (t : Tree) (wording : Wording) (above path : String) (a : α) :
    Except OutputError Tree :=
  let content := Content.text (encode a : Written).pretty
  let shown := Path.join above path
  match if Path.fits shown then t.writeAt? path content else none with
  | some t => .ok t
  | none => .error ⟨shown, wording.unwritten shown⟩

end FuzzBundle
