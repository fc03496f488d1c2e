/-
  FuzzBundle.Project.Basic — projects, and what is compiled of them.

  A project is a folder together with the path by which it was named; that path comes back in
  messages. It is compiled in units, each a compiler version with the document for it.
-/
import FuzzBundle.Artifact.Basic
import FuzzBundle.Text.Context
import FuzzBundle.Workspace.Lookup

namespace FuzzBundle

/-! ## §1. Projects and units -/

/-- A project: the path it was named by, the same path from the top of all folders, what is in its
folder, if there is one, and the path of a folder in it that cannot be listed, if there is one. The
wording is that of the machine it is on. -/
structure Project where
  path : String
  absolutePath : String
  tree? : Option Tree
  unlisted? : Option String := none
  wording : Wording := {}

/-- What is compiled at once: a compiler version, and the document for it. -/
abbrev BuildUnit := CompilerArgs

namespace Project

/-- The path of something in a project. -/
def pathOf (p : Project) (name : String) : String := Path.join p.path name

/-- The file with this name. -/
def file? (p : Project) (name : String) : Option Content := p.tree?.bind (·.file? [name])

end Project

/-! ## §2. Errors -/

/-- What is wrong with a fragment of build info. -/
inductive FragmentError where
  | invalid (reason : String)
  | unknownVersion (text : String)
  deriving DecidableEq, Repr

/-- The text of an error in a fragment. -/
def FragmentError.message : FragmentError → String
  | .invalid reason => Text.withContext "Invalid build-info" reason
  | .unknownVersion text => "Unrecognised solcLongVersion " ++ text

/-- Why a project gives no units. -/
inductive ProjectError where
  | unknownKind (name : String)
  | noVersion
  | badVersion (reason : String)
  | unreadableFile (path reason : String)
  | unreadableFolder (path reason : String)
  | unreadableFragments (path reason : String)
  | badFragment (path : String) (error : FragmentError)
  | toolNotStarted (program reason : String)
  | toolFailed (call : List String) (reason : String)
  | noFragments (path : String)
  deriving DecidableEq, Repr

/-- The text of an error. -/
def ProjectError.message : ProjectError → String
  | .unknownKind name => "Unknown project type " ++ name
  | .noVersion => "Compiler version not specified"
  | .badVersion reason => Text.withContext "Failed to parse solc version" reason
  | .unreadableFile path reason => Text.withContext ("Failed to read " ++ path) reason
  | .unreadableFolder path reason => Text.withContext ("Failed to read directory " ++ path) reason
  | .unreadableFragments path reason =>
    Text.withContext ("Failed to read build-info directory " ++ path) reason
  | .badFragment path error => Text.withContext path error.message
  | .toolNotStarted program reason => Text.withContext ("Failed to run " ++ program) reason
  | .toolFailed call reason => String.intercalate " " call ++ " failed: " ++ reason
  | .noFragments path => "forge build produced no build info at " ++ path

end FuzzBundle
