/-
  FuzzBundle.Text.Context — saying what was being done when something went wrong.
-/
import FuzzBundle.Text.Blank

namespace FuzzBundle.Text

/-- A cause after its context. One colon stands between them, which the context may bring along. -/
def withContext (context cause : String) : String :=
  (if endsWith ":" context then context else context ++ ":") ++ " " ++ cause

end FuzzBundle.Text
