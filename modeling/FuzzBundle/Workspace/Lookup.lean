/-
  FuzzBundle.Workspace.Lookup — what a path names, seen from the top of a tree.

  A path is followed part by part to a `Place`. Two points lead back up, but only out of a folder
  that is there: where nothing is, or a file, no path goes on. The places in the tree are known by
  their names; of the places outside only the landmarks of `FuzzBundle.Workspace.Machine` are.

  Folders are made part by part as well (`makeFolder`), each one before the next is looked for, so
  that two points find the folder they lead out of. A single point at the end of a path asks for a
  folder that is there already, so only the folders above it are made.
-/
import FuzzBundle.Workspace.Machine
import FuzzBundle.Workspace.Path
import FuzzBundle.Workspace.Tree

namespace FuzzBundle

/-! ## §1. Places -/

/-- A place that a path leads to: in the tree, by the names on the way, latest first; at a landmark
outside, by its names from the top of all folders, latest first; or at a free name in an open folder
outside. There need be nothing at a place in the tree. -/
inductive Place where
  | inside (reversed : List String)
  | outside (reversed : List String)
  | free
  deriving DecidableEq, Repr

namespace Place

/-- Where a path begins. -/
def start (path : String) : Place := if Path.isAbsolute path then .outside [] else .inside []

/-- The place of a landmark, which may be a link to another place. -/
def ofLandmark (reversed : List String) : Landmark → Place
  | .workingFolder => .inside []
  | .top => .outside []
  | .folder _ | .device _ _ => .outside reversed

/-- The place above a folder. The folder above the top of all folders is that top. -/
def up? (t : Tree) : Place → Option Place
  | .inside reversed =>
    if (t.folder? reversed.reverse).isSome then
      match reversed with
      | [] => some (.outside Landmark.home)
      | _ :: upper => some (.inside upper)
    else none
  | .outside reversed =>
    match landmark? reversed with
    | some (.folder _) => some (.outside reversed.tail)
    | _ => none
  | .free => none

/-- The place with a name in a folder. -/
def down? (part : String) : Place → Option Place
  | .inside reversed => some (.inside (part :: reversed))
  | .outside reversed =>
    match landmark? reversed, landmark? (part :: reversed) with
    | some (.folder _), some found => some (ofLandmark (part :: reversed) found)
    | some (.folder true), none => some .free
    | _, _ => none
  | .free => none

/-- The place that a part of a path leads to. -/
def step? (t : Tree) (place : Place) (part : String) : Option Place :=
  if part = ".." then place.up? t
  else if Path.isName part then place.down? part
  else none

/-- Follows the parts of a path. -/
def follow? (t : Tree) (place : Place) (parts : List String) : Option Place :=
  parts.foldlM (step? t) place

end Place

/-! ## §2. Looking and writing -/

namespace Tree

/-- The place that a path names. -/
def place? (t : Tree) (path : String) : Option Place :=
  if Path.fits path then Place.follow? t (.start path) (Path.segments path) else none

/-- The place that a path names, unless it ends like the path of a folder. -/
def filePlace? (t : Tree) (path : String) : Option Place :=
  if Path.endsInFolder path then none else t.place? path

/-- The content of the file that a path names. -/
def fileAt? (t : Tree) (path : String) : Option Content :=
  match t.filePlace? path with
  | some (.inside reversed) => t.file? reversed.reverse
  | some (.outside reversed) =>
    match landmark? reversed with
    | some (.device (some text) _) => some (.text text)
    | _ => none
  | _ => none

/-- Writes the file that a path names. What is written outside the tree changes nothing in it. -/
def writeAt? (t : Tree) (path : String) (content : Content) : Option Tree :=
  match t.filePlace? path with
  | some (.inside reversed) => t.write? reversed.reverse content
  | some (.outside reversed) =>
    match landmark? reversed with
    | some (.device _ true) => some t
    | _ => none
  | some .free => some t
  | _ => none

/-- The entries of the folder at a place. Nothing is known of those outside. -/
def entriesAt? (t : Tree) : Place → Option (List (String × Tree))
  | .inside reversed => t.folder? reversed.reverse
  | .outside reversed =>
    match landmark? reversed with
    | some (.folder _) => some []
    | _ => none
  | .free => none

/-- The entries of the folder that a path names. -/
def folderAt? (t : Tree) (path : String) : Option (List (String × Tree)) :=
  (t.place? path).bind t.entriesAt?

/-! ## §3. Making folders -/

/-- Makes the folders that the parts of a path lead through, and says where they lead. A file or a
device on the way is in the way, and then they lead nowhere. Outside the tree any other folder can
be made. -/
def makeAlong (t : Tree) (place : Place) : List String → Tree × Option Place
  | [] => (t, some place)
  | part :: rest =>
    match place with
    | .inside reversed =>
      if part = ".." then
        match reversed with
        | [] => t.makeAlong (.outside Landmark.home) rest
        | _ :: upper => t.makeAlong (.inside upper) rest
      else if Path.isName part ∧ t.admitsFolder (part :: reversed).reverse then
        (t.addFolder (part :: reversed).reverse).makeAlong (.inside (part :: reversed)) rest
      else (t, none)
    | .outside reversed =>
      match landmark? reversed with
      | some (.device _ _) => (t, none)
      | _ => t.makeAlong ((place.step? t part).getD .free) rest
    | .free => t.makeAlong .free rest

/-- Whether there is a folder at a place to which folders were made. -/
def leadsToFolder (t : Tree) : Place → Bool
  | .free => true
  | place => (t.entriesAt? place).isSome

/-- The tree after the folder that a path names was made, and whether it was. -/
def makeFolder (t : Tree) (path : String) : Tree × Bool :=
  if Path.fits path then
    let parts := Path.segments path
    let made := if Path.endsInPoint path then parts.dropLast else parts
    let (t, place?) := t.makeAlong (.start path) made
    let place? := place?.bind fun place => place.follow? t (parts.drop made.length)
    (t, place?.any t.leadsToFolder)
  else (t, false)

end Tree

end FuzzBundle
