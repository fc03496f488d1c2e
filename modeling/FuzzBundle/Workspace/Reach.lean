/-
  FuzzBundle.Workspace.Reach — what can be reached below a path.

  Everything in a folder is opened by the path of the folder with its own names behind it, and that
  path may become too long. A folder cannot be listed then. A file is not found by its name any
  more; only a source, which is found by listing, is still there, but it cannot be read.
-/
import FuzzBundle.Workspace.Path
import FuzzBundle.Workspace.Tree

namespace FuzzBundle.Reach

/-! ## §1. Files -/

/-- What is found of a file that cannot be opened: a source without anything to read. -/
def unopened (name : String) : List (String × Tree) :=
  if Path.hasExtension "sol" name then [(name, .file (.bytes []))] else []

mutual

/-- What is found of a tree that is reached by a path. -/
def treeBelow (path : String) : Tree → Tree
  | .file content => .file content
  | .folder entries => .folder (entriesBelow path entries)

/-- What is found of the entries of a folder that is reached by a path. -/
def entriesBelow (path : String) : List (String × Tree) → List (String × Tree)
  | [] => []
  | (name, t) :: rest =>
    let found :=
      if Path.fits (Path.join path name) ∨ t.entries?.isSome then
        [(name, treeBelow (Path.join path name) t)]
      else unopened name
    found ++ entriesBelow path rest

end

/-! ## §2. Folders -/

mutual

/-- The path of a folder in a tree that cannot be listed, the first there is. Hidden folders are
not listed at all. -/
def unlisted? (path : String) : Tree → Option String
  | .file _ => none
  | .folder entries => if Path.fits path then unlistedIn? path entries else some path

/-- The path of a folder below some entries that cannot be listed, the first there is. -/
def unlistedIn? (path : String) : List (String × Tree) → Option String
  | [] => none
  | (name, t) :: rest =>
    match if Path.isHidden name then none else unlisted? (Path.join path name) t with
    | some found => some found
    | none => unlistedIn? path rest

end

end FuzzBundle.Reach
