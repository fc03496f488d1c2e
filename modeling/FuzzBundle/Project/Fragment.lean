/-
  FuzzBundle.Project.Fragment — build info that other tools leave behind.

  A fragment is a file that says what a tool had compiled and with which compiler. Only these two
  fields are looked at, and whatever follows the document in the file is ignored.
-/
import FuzzBundle.Json.Bytes
import FuzzBundle.Project.Basic
import FuzzBundle.Version

namespace FuzzBundle.Fragment

/-- The fields of a fragment. -/
def fields? (w : Written) : Option (String × InputDocument) := do
  let s ← w.slots? ["solcLongVersion", "input"]
  return (← s.required "solcLongVersion", ← s.required "input")

/-- The unit that a file begins with. -/
def unitOf (wording : Wording) (content : Content) : Except FragmentError BuildUnit :=
  match content.scan.bind fun found => fields? found.1 with
  | none => .error (.invalid (wording.misread .fragment content))
  | some (longVersion, document) =>
    match Version.ofLongVersion? longVersion with
    | some version => .ok ⟨version, document⟩
    | none => .error (.unknownVersion longVersion)

/-- The files of a folder that hold fragments, in the order of their names. -/
def filesIn (entries : List (String × Tree)) : List (String × Content) :=
  (entries.filter fun entry => Path.hasExtension "json" entry.1).filterMap fun entry =>
    entry.2.content?.map fun content => (entry.1, content)

/-- The units of some fragments, unless one of them is none. The first such file is reported. -/
def readAll (wording : Wording) (path : String) :
    List (String × Content) → Except ProjectError (List BuildUnit)
  | [] => .ok []
  | (name, content) :: rest =>
    match unitOf wording content with
    | .error e => .error (.badFragment (Path.join path name) e)
    | .ok unit =>
      match readAll wording path rest with
      | .error e => .error e
      | .ok units => .ok (unit :: units)

/-- The units of the fragments in a folder, if there is one. -/
def read (wording : Wording) (path : String) (entries? : Option (List (String × Tree))) :
    Except ProjectError (List BuildUnit) :=
  match if Path.fits path then entries? else none with
  | none => .error (.unreadableFragments path (wording.unlisted path))
  | some entries => readAll wording path (filesIn entries)

end FuzzBundle.Fragment
