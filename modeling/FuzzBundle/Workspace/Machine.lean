/-
  FuzzBundle.Workspace.Machine — what is known of the machine around a tree.

  Paths can lead out of the folder that a tree stands for: up from its top, or from the top of all
  folders. Little can be said about what is there. `landmark?` knows the devices, the folders that
  are on every machine, and the links by which a process reaches its own folder again. A name that
  is free in a folder open to everybody can be written; what was written there is not kept. The
  tree itself is in such a folder (`home`), under a name that no path uses.
-/

namespace FuzzBundle

/-- Something known outside a tree. A device may hold a text to read, and may take what is written
to it. -/
inductive Landmark where
  | folder (isOpen : Bool)
  | device (holds? : Option String) (takes : Bool)
  | workingFolder
  | top
  deriving DecidableEq, Repr

namespace Landmark

/-- The devices by name. Those that give without end hold no text. -/
def device? : String → Option Landmark
  | "null" | "stdin" => some (.device (some "") true)
  | "stdout" | "stderr" | "zero" | "random" | "urandom" => some (.device none true)
  | "full" | "tty" => some (.device none false)
  | _ => none

/-- The streams of a process by number. -/
def stream? : String → Option Landmark
  | "0" => device? "stdin"
  | "1" => device? "stdout"
  | "2" => device? "stderr"
  | _ => none

/-- A file that everybody may read, and that is no document. -/
def notice : Landmark := .device (some "no document") false

/-- The folders right below the top of all folders. -/
def topFolders : List String :=
  ["bin", "dev", "etc", "home", "lib", "media", "mnt", "opt", "proc", "root", "run", "sbin", "srv",
    "sys", "tmp", "usr", "var"]

/-- Where the folder is that a tree stands for: among the folders for a while. -/
def home : List String := ["tmp"]

end Landmark

open Landmark in
/-- What is known at a place, given the names from the top of all folders, latest first. -/
def landmark? : List String → Option Landmark
  | [] | ["self", "proc"] | ["fd", "dev"] | ["fd", "self", "proc"] => some (.folder false)
  | ["tmp"] | ["tmp", "var"] | ["shm", "dev"] => some (.folder true)
  | ["cwd", "self", "proc"] => some .workingFolder
  | ["root", "self", "proc"] => some .top
  | [name, "etc"] => if name ∈ ["passwd", "group", "hosts", "hostname"] then some notice else none
  | ["version", "proc"] | ["status", "self", "proc"] => some notice
  | [name, "dev"] => device? name
  | [name, "fd", "dev"] | [name, "fd", "self", "proc"] => stream? name
  | [name] => if name ∈ topFolders then some (.folder false) else none
  | _ => none

end FuzzBundle
