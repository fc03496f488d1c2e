/-
  FuzzBundle.Workspace.Tree — folders and the files in them.

  A `Tree` is a file or a folder of named trees. The names in a folder ascend strictly wherever the
  operations of this module build it, so the files of a tree are listed in the order of their paths,
  name by name.
-/
import FuzzBundle.Dict
import FuzzBundle.Process

namespace FuzzBundle

/-- A file with its content, or a folder. -/
inductive Tree where
  | file (content : Content)
  | folder (entries : List (String × Tree))
  deriving Inhabited

namespace Tree

/-! ## §1. Looking into a tree -/

/-- A folder without entries. -/
def empty : Tree := .folder []

/-- The entry of a folder with this name. -/
def child? (t : Tree) (name : String) : Option Tree :=
  match t with
  | .folder entries => Entries.get? entries name
  | .file _ => none

/-- What some names lead to. -/
def at? (t : Tree) : List String → Option Tree
  | [] => some t
  | name :: rest =>
    match t.child? name with
    | some inner => inner.at? rest
    | none => none

/-- The content of a file. -/
def content? : Tree → Option Content
  | .file content => some content
  | .folder _ => none

/-- The entries of a folder. -/
def entries? : Tree → Option (List (String × Tree))
  | .folder entries => some entries
  | .file _ => none

/-- The content of the file that some names lead to. -/
def file? (t : Tree) (names : List String) : Option Content := (t.at? names).bind content?

/-- The entries of the folder that some names lead to. -/
def folder? (t : Tree) (names : List String) : Option (List (String × Tree)) :=
  (t.at? names).bind entries?

mutual

/-- The files of a tree with the names that lead to them. -/
def files : Tree → List (List String × Content)
  | .file content => [([], content)]
  | .folder entries => filesIn entries

/-- The files in some entries. -/
def filesIn : List (String × Tree) → List (List String × Content)
  | [] => []
  | (name, t) :: rest => (files t).map (fun f => (name :: f.1, f.2)) ++ filesIn rest

end

/-! ## §2. Changing a tree -/

/-- Puts something where some names lead to. Folders on the way are made; a file on the way is in
the way, and then nothing changes. -/
def put (t : Tree) (names : List String) (new : Tree) : Tree :=
  match names with
  | [] => new
  | name :: rest =>
    match t with
    | .file content => .file content
    | .folder entries =>
      .folder (Entries.insert entries name
        (((Entries.get? entries name).getD empty).put rest new))

/-- Removes what some names lead to. -/
def remove (t : Tree) (names : List String) : Tree :=
  match names, t with
  | [], t => t
  | _ :: _, .file content => .file content
  | [name], .folder entries => .folder (entries.filter (·.1 ≠ name))
  | name :: next :: rest, .folder entries =>
    match Entries.get? entries name with
    | some inner => .folder (Entries.insert entries name (inner.remove (next :: rest)))
    | none => .folder entries

/-- Writes a file into a folder that is there. Nothing is written over a folder. -/
def write? (t : Tree) (names : List String) (content : Content) : Option Tree :=
  match names with
  | [] => none
  | _ :: _ =>
    if (t.folder? names.dropLast).isSome ∧ (t.folder? names).isNone then
      some (t.put names (.file content))
    else none

/-- Whether a folder could be made where some names lead to: no file is there or on the way. -/
def admitsFolder (t : Tree) : List String → Bool
  | [] => t.entries?.isSome
  | name :: rest =>
    match t with
    | .file _ => false
    | .folder entries =>
      match Entries.get? entries name with
      | some inner => inner.admitsFolder rest
      | none => true

/-- Makes a folder where some names lead to, if that is possible and nothing is there. -/
def addFolder (t : Tree) (names : List String) : Tree :=
  if t.admitsFolder names ∧ (t.at? names).isNone then t.put names empty else t

end Tree

end FuzzBundle
