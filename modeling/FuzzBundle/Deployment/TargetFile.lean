/-
  FuzzBundle.Deployment.TargetFile — targets that are kept in a file.
-/
import FuzzBundle.Deployment.Target
import FuzzBundle.Process
import FuzzBundle.Text.Context

namespace FuzzBundle

/-- Why a file gives no targets. -/
inductive TargetFileError where
  | unreadable (path reason : String)
  | invalid (path reason : String)
  deriving DecidableEq, Repr

/-- The text of an error. -/
def TargetFileError.message : TargetFileError → String
  | .unreadable path reason => Text.withContext ("Failed to read targets " ++ path) reason
  | .invalid path reason => Text.withContext ("Invalid targets file " ++ path) reason

/-- The targets in a file, when the whole file is one document of targets. -/
def TargetMap.ofFile (wording : Wording) (path : String) (content? : Option Content) :
    Except TargetFileError TargetMap :=
  match content? with
  | none => .error (.unreadable path (wording.unopened path))
  | some content =>
    match content.text? with
    | none => .error (.unreadable path (wording.noText path))
    | some text =>
      match (Written.read text).bind decode with
      | some targets => .ok targets
      | none => .error (.invalid path (wording.misread .targets content))

end FuzzBundle
