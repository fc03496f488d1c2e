/-
  FuzzBundle.Project.Sources — a folder of sources as one unit.

  Every file with the extension of the language becomes a source named by its path, unless it or a
  folder on the way to it is hidden. Folders are listed one after the other, in whatever order their
  entries come, and what was found is sorted at the end. Remappings stand in a file of their own,
  one to a line, and are passed on as they are.
-/
import FuzzBundle.Project.Basic
import FuzzBundle.Text.Lines
import FuzzBundle.Version

namespace FuzzBundle.Sources

/-! ## §1. Finding the sources -/

/-- A folder that was found: the names that lead to it, and its entries as they are listed. -/
structure Found where
  names : List String
  entries : List (String × Tree)

/-- The files with the extension of the language that are listed in a folder, hidden ones apart. -/
def filesIn (folder : Found) : List (List String × Content) :=
  folder.entries.filterMap fun entry =>
    if Path.isHidden entry.1 then none
    else
      match entry.2 with
      | .file content =>
        if Path.hasExtension "sol" entry.1 then some (folder.names ++ [entry.1], content) else none
      | .folder _ => none

/-- The folders that are listed in a folder, unless they are hidden. -/
def foldersIn (folder : Found) : List Found :=
  folder.entries.filterMap fun entry =>
    if Path.isHidden entry.1 then none
    else
      match entry.2 with
      | .file _ => none
      | .folder entries => some ⟨folder.names ++ [entry.1], entries⟩

/-- How much there is in some folders. -/
noncomputable def extent : List Found → Nat
  | [] => 0
  | folder :: rest => sizeOf folder.entries + extent rest

theorem extent_append (pending more : List Found) :
    extent (pending ++ more) = extent pending + extent more := by
  induction pending with
  | nil => simp [extent]
  | cons folder rest ih => simp [extent, ih, Nat.add_assoc]

theorem extent_reverse (pending : List Found) : extent pending.reverse = extent pending := by
  induction pending with
  | nil => rfl
  | cons folder rest ih => simp [extent_append, extent, ih, Nat.add_comm]

/-- There is less in the folders in a folder than in the folder. -/
theorem extent_foldersIn (folder : Found) :
    extent (foldersIn folder) < sizeOf folder.entries := by
  obtain ⟨names, entries⟩ := folder
  induction entries with
  | nil => simp [foldersIn, extent]
  | cons entry rest ih =>
    obtain ⟨name, t⟩ := entry
    have later : extent (foldersIn ⟨names, rest⟩) < sizeOf rest := ih
    simp only [foldersIn, List.filterMap_cons] at later ⊢
    split
    · next none => simp; omega
    · next inner here =>
      split at here
      · cases here
      · cases t with
        | file content => cases here
        | folder entries =>
          cases here
          rw [extent]
          simp
          omega

/-- All sources below some folders. The last folder that was found is listed next. -/
def collect (pending : List Found) : List (List String × Content) :=
  match pending with
  | [] => []
  | folder :: rest => filesIn folder ++ collect ((foldersIn folder).reverse ++ rest)
termination_by extent pending
decreasing_by
  have less := extent_foldersIn folder
  rw [extent_append, extent_reverse, extent]
  omega

/-- The sources below the entries of a folder with the names that lead to them, in the order of
these. -/
def sourceFiles (entries : List (String × Tree)) : List (List String × Content) :=
  (collect [⟨[], entries⟩]).mergeSort fun a b => Path.inOrder a.1 b.1

/-! ## §2. Reading the sources -/

/-- The text of a file of a project. -/
def readFile (p : Project) (name : String) (content : Content) : Except ProjectError String :=
  match content.text? with
  | some text => .ok text
  | none => .error (.unreadableFile (p.pathOf name) (p.wording.noText (p.pathOf name)))

/-- The entries for some sources, unless one of them holds no text. The first such source is
reported. -/
def readSources (p : Project) :
    List (List String × Content) → Except ProjectError (List (String × SourceEntry))
  | [] => .ok []
  | (names, content) :: rest =>
    match readFile p (Path.ofNames names) content with
    | .error e => .error e
    | .ok text =>
      match readSources p rest with
      | .error e => .error e
      | .ok entries => .ok ((Path.ofNames names, .ofContent text) :: entries)

/-! ## §3. Remappings -/

/-- The file that lists the remappings. -/
def remappingsFile : String := "remappings.txt"

/-- The remappings in a text, one to a line that is not blank. -/
def remappingsOf (text : String) : List String :=
  ((Text.lines text).map Text.trim).filter (· ≠ "")

/-- The remappings of a project. -/
def remappings (p : Project) : Except ProjectError (List String) :=
  match p.file? remappingsFile with
  | none => .ok []
  | some content => (readFile p remappingsFile content).map remappingsOf

/-! ## §4. The unit -/

/-- The compiler version that was asked for, if it is one. -/
def versionOf (wording : Wording) (asked : Option String) : Except ProjectError String :=
  let version := Text.trim (asked.getD "")
  if version = "" then .error .noVersion
  else if (Version.parse? version).isNone then
    .error (.badVersion (wording.misread .version (.text version)))
  else .ok version

/-- All sources of a project, to be compiled with one version. -/
def unitOf (p : Project) (asked : Option String) : Except ProjectError BuildUnit := do
  let version ← versionOf p.wording asked
  match p.tree?.bind Tree.entries? with
  | none => throw (.unreadableFolder p.path (p.wording.unlisted p.path))
  | some entries =>
    if let some path := p.unlisted? then
      throw (.unreadableFolder path (p.wording.unlisted path))
    let sources ← readSources p (sourceFiles entries)
    let remappings ← remappings p
    return ⟨version, .ofSources (Dict.ofList sources) ⟨remappings, Dict.empty, Dict.empty⟩⟩

end FuzzBundle.Sources
