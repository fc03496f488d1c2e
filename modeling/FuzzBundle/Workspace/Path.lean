/-
  FuzzBundle.Workspace.Path — names of files, and paths made of them.

  A path is written with slashes. Empty parts and parts that are a single point say nothing
  (`Path.segments`). What a path leads to depends on the folders that are there, and is found in
  `FuzzBundle.Workspace.Lookup`. The extension of a name is what follows its last point; a point at
  the very beginning does not count, it makes the file hidden.
-/
import FuzzBundle.Text.Blank
import FuzzBundle.Text.Pieces

namespace FuzzBundle.Path

/-- The parts of a path that say something. -/
def segments (path : String) : List String :=
  ((Text.pieces '/' path.toList).map String.ofList).filter fun part => part ≠ "" ∧ part ≠ "."

/-- Whether a part of a path is not too long for a name. -/
def isName (part : String) : Bool := part.utf8ByteSize ≤ 255

/-- Whether a text can be used as a path: it is not too long, and holds no null character. -/
def fits (path : String) : Bool :=
  decide (path.utf8ByteSize ≤ 4095) && !path.toList.contains '\x00'

/-- Whether a path begins at the top of all folders. -/
def isAbsolute (path : String) : Bool := Text.startsWith "/" path

/-- Whether a path ends like that of a folder: with a slash, or with points for a folder. -/
def endsInFolder (path : String) : Bool :=
  match (Text.pieces '/' path.toList).getLast? with
  | some [] | some ['.'] | some ['.', '.'] => true
  | _ => false

/-- Whether the last part of a path is a single point. -/
def endsInPoint (path : String) : Bool :=
  ((Text.pieces '/' path.toList).filter (· ≠ [])).getLast? == some ['.']

/-- The path of something in a folder. An absolute path stays what it is. -/
def join (folder path : String) : String :=
  if isAbsolute path then path
  else if folder = "" ∨ Text.endsWith "/" folder then folder ++ path
  else folder ++ "/" ++ path

/-- The path of a list of names. -/
def ofNames (names : List String) : String := String.intercalate "/" names

/-- Whether the first of two paths, given by their names, may stand before the second: name by name,
and a path before what is below it. -/
def inOrder : List String → List String → Bool
  | [], _ => true
  | _ :: _, [] => false
  | a :: as, b :: bs => if a < b then true else if a = b then inOrder as bs else false

/-- Whether a name begins with a point. -/
def isHidden (name : String) : Bool := Text.startsWith "." name

/-- What follows the last point of a name, if something precedes it. -/
def extension? (name : String) : Option (List Char) :=
  let reversed := name.toList.reverse
  match reversed.dropWhile (· ≠ '.') with
  | _ :: _ :: _ => some (reversed.takeWhile (· ≠ '.')).reverse
  | _ => none

/-- Whether a name has an extension, given in lower case; the case of letters does not matter. -/
def hasExtension (extension : String) (name : String) : Bool :=
  (extension? name).any fun found => found.map Char.toLower == extension.toList

end FuzzBundle.Path
