/-
  FuzzBundle.Bundle.Scenario — describing what surrounds a command.

  A scenario is a document that lists the files of a folder and says what each program does when
  it is run: what it writes, what it reports, and how it ends. `Scenario.session?` makes it a
  session that a command can be run in.
-/
import FuzzBundle.Bundle.Run

namespace FuzzBundle.Scenario

/-! ## §1. Behaviour of programs -/

/-- What a program does: what it writes, its error text, how it ends, whether it deletes the file
it was given, and the fragments of build info it leaves. -/
structure Behaviour where
  output? : Option String
  errorText : String
  status : ExitStatus
  deletes : Bool
  fragments? : Option (List (String × Json))

/-- The text of a field. -/
def text? (d : Json) (key : String) : Option String := (d.field? key).bind Json.string?

/-- How a program ends that gives a number; a negative one is that of a signal. -/
def statusOf (d : Json) : ExitStatus :=
  match d.field? "exit" with
  | some (.number (.natural n)) => .code (n % 256)
  | some (.number (.negative n)) => .signal n false
  | _ => .code 0

/-- The behaviour that a document describes. -/
def Behaviour.ofJson (d : Json) : Behaviour where
  output? := text? d "output"
  errorText := (text? d "stderr").getD ""
  status := statusOf d
  deletes := ((d.field? "delete").bind Json.bool?).getD false
  fragments? :=
    match d.field? "fragments" with
    | some (.object fields) => some fields
    | _ => none

/-- Whether a text can be an argument: it is not too long for one, and holds no null character. -/
def isArgument (text : String) : Bool :=
  decide (text.utf8ByteSize < 131072) && !text.toList.contains '\x00'

/-- Starts a program with some arguments. -/
def launch (arguments : List String) (run : α) : Launch α :=
  if arguments.all isArgument then .ran run else .refused "an argument is none"

/-- The program as a worker. -/
def Behaviour.work (b : Behaviour) (scratch : Option Content) : WorkerRun where
  left :=
    if b.deletes then none
    else
      match b.output? with
      | some text => some (.text text)
      | none => scratch
  errors := .text b.errorText
  status := b.status

/-- The program as a release of the compiler. -/
def Behaviour.compile (b : Behaviour) : CompilerRun :=
  ⟨.text (b.output?.getD ""), Text.trim b.errorText, b.status⟩

/-- The program as a build tool that leaves its build info in a folder. -/
def Behaviour.tool (b : Behaviour) (folder : List String) (t : Tree) : ToolRun where
  tree :=
    match b.fragments? with
    | none => t
    | some fragments =>
      fragments.foldl (fun t fragment =>
        t.put (folder ++ [fragment.1]) (.file (.text (fragment.2.string?.getD ""))))
        (t.addFolder folder)
  errors := .text b.errorText
  status := b.status

/-- The behaviours that the fields of a document describe. -/
def behavioursOf (d : Json) : Option (List (String × Behaviour)) :=
  match d with
  | .object fields => some (fields.map fun field => (field.1, .ofJson field.2))
  | _ => none

/-! ## §2. Programs -/

/-- A worker that does what is described for the version it is asked for, or else what is
described for any version. -/
def workerOf (versions : List (String × Behaviour)) : Worker := fun arguments scratch =>
  let version := arguments.reverse[3]?.getD ""
  match (Entries.get? versions version).orElse fun _ => Entries.get? versions "*" with
  | some b => launch arguments (b.work scratch)
  | none => launch arguments ⟨scratch, .text "unexpected version", .code 9⟩

/-- Why a program that is not there cannot be run. -/
def missing : String := "No such file or directory"

/-- Where a tool is told to leave its build info. -/
def folderFor : List String → List String
  | "build" :: _ :: _ :: path :: _ => ((Path.segments path).getLast?.map ([·])).getD []
  | _ => Tooling.hardhatFolder

/-- Tools that do what is described for their first argument. -/
def toolboxOf (tools : List (String × Behaviour)) : Toolbox := fun _ arguments t =>
  match arguments.head?.bind (Entries.get? tools) with
  | some b => .ran (b.tool (folderFor arguments) t)
  | none => .refused missing

/-- Why no thread can be started with a stack of some size, if none can. -/
def stackRefusal? (size : Nat) : Option String :=
  if Nat.pow 2 64 - Nat.pow 2 12 ≤ size then some "Invalid argument (os error 22)"
  else if Nat.pow 2 47 ≤ size then some "Resource temporarily unavailable (os error 11)"
  else none

/-- Releases that do what is described for their version, to files in a tree. -/
def releasesOf (t : Tree) (versions : List (String × Behaviour)) : Releases where
  availability v :=
    if (Entries.get? versions v.text).isSome then .atHand else .missing "nobody to ask for it"
  compile v _ :=
    match Entries.get? versions v.text with
    | some b => b.compile
    | none => ⟨.text "", "", .code 1⟩
  noThread? := stackRefusal?
  writing path content :=
    if (t.writeAt? path content).isSome then .done else .refused "the file takes nothing"

/-! ## §3. Files -/

/-- The tree that a description of a file stands for: its text, its bytes in hexadecimal digits,
or an empty folder. -/
def entryOf? : Json → Option Tree
  | .string text => some (.file (.text text))
  | d =>
    match text? d "hex" with
    | some digits =>
      match Bytecode.bytesOfText digits with
      | .ok bytes => some (.file (.ofBytes bytes))
      | .error _ => none
    | none => if d.field? "dir" = some (.bool true) then some .empty else none

/-- Adds a described file to a folder, with the folders on the way to it. -/
def addFile? (t : Tree) (file : String × Json) : Option Tree := do
  let entry ← entryOf? file.2
  let folder :=
    if entry.entries?.isSome then file.1 else Path.ofNames (Path.segments file.1).dropLast
  let (t, made) := t.makeFolder folder
  match t.place? file.1 with
  | some (.inside reversed) =>
    if ¬ made then none
    else if entry.entries?.isSome then some t
    else some (t.put reversed.reverse entry)
  | _ => none

/-- The folder of some described files. -/
def treeOf? (d : Json) : Option Tree :=
  match d with
  | .object fields => fields.foldlM addFile? .empty
  | .null => some .empty
  | _ => none

/-! ## §4. Sessions -/

/-- A name like those of scratch files. -/
def scratchName : String := "1000000-00000000-0000-4000-8000-000000000000.json"

/-- What comes of writing a scratch file into a folder. -/
def writingIn (t : Tree) (folder : String) : FileWrite :=
  if ¬ (t.makeFolder folder).2 then .refused "no such folder"
  else if ¬ Path.fits (Path.join folder scratchName) then .refused "the path is too long"
  else .done

/-- A number in hexadecimal digits, filled up with zeros to an address. -/
def addressOf (n : Nat) : String :=
  let digits := Nat.toDigits 16 n
  "0x" ++ String.ofList (List.replicate (40 - digits.length) '0' ++ digits)

/-- The programs around a command. Without described workers there is none. -/
def surroundingsOf (t : Tree) (workers? : Option (List (String × Behaviour)))
    (tools : List (String × Behaviour)) : Surroundings where
  executable := "bundler"
  toolbox := toolboxOf tools
  worker _ :=
    match workers? with
    | some versions => workerOf versions
    | none => fun _ _ => .refused missing
  writing folder _ _ := writingIn t folder
  freshFolder := "build-info-fresh"
  freshScratch n := ".tmp/" ++ String.ofList (Nat.toDigits 10 n) ++ ".json"
  freshAddress := addressOf

/-- The session that a document describes. Nobody answers requests in it. -/
def session? (d : Json) : Option (Session Unit) := do
  let t ← treeOf? ((d.field? "files").getD .null)
  let workers? := (d.field? "workers").bind behavioursOf
  let tools := ((d.field? "tools").bind behavioursOf).getD []
  let releases := ((d.field? "releases").bind behavioursOf).getD []
  return {
    surroundings := surroundingsOf t workers? tools
    path := "/"
    tree := t
    releases := releasesOf t releases
    exchange := fun _ _ s => (.refused "nobody answers", s)
    network := () }

end FuzzBundle.Scenario
