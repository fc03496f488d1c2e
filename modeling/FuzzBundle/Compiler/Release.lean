/-
  FuzzBundle.Compiler.Release — running a release of the compiler on a scratch file.

  This is what a worker does: it reads the request from the scratch file, runs the compiler of the
  asked version on it, and overwrites the file with the compiler's output. It does so on a thread
  with a stack of its own. The desk of a worker (`Desk`) is what its steps change: the file, and
  which requests a compiler was run on.
-/
import FuzzBundle.Json.Bytes
import FuzzBundle.Text.Context
import FuzzBundle.Version

namespace FuzzBundle

/-! ## §1. Errors -/

/-- Why a release could not be run on a scratch file. -/
inductive ReleaseError where
  | noThread (reason : String)
  | badVersion (reason : String)
  | uninspected (reason : String)
  | notInstalled (version : Version) (reason : String)
  | unreadable (path reason : String)
  | notJson (reason : String)
  | trailingData (reason : String)
  | failed (version : Version) (reason : String)
  | unwritable (path reason : String)
  deriving DecidableEq, Repr

/-- The text of an error. -/
def ReleaseError.message : ReleaseError → String
  | .noThread reason => Text.withContext "Failed to start compiler worker thread" reason
  | .badVersion reason => Text.withContext "Failed to parse solc version" reason
  | .uninspected reason => Text.withContext "Failed to inspect solc versions" reason
  | .notInstalled version reason =>
    Text.withContext ("Failed to install solc " ++ version.text) reason
  | .unreadable path reason => Text.withContext ("Failed to read compiler input " ++ path) reason
  | .notJson reason => Text.withContext "Compiler input is not valid JSON" reason
  | .trailingData reason => Text.withContext "Compiler input has trailing data" reason
  | .failed version reason => Text.withContext ("solc " ++ version.text ++ " failed") reason
  | .unwritable path reason => Text.withContext ("Failed to write compiler output " ++ path) reason

/-! ## §2. Releases -/

/-- Whether a release can be had. It is at hand or was fetched; or nobody could see which releases
are at hand; or it is not and could not be fetched. -/
inductive Availability where
  | atHand
  | unseen (reason : String)
  | missing (reason : String)
  deriving DecidableEq, Repr

/-- What a compiler did with a request: what it wrote, how its failure is put, and how it ended. -/
structure CompilerRun where
  output : Content
  complaint : String
  status : ExitStatus
  deriving DecidableEq

/-- The releases, what each does with a request, and the machine they are run on: which threads
cannot be started, which files can be read, and what comes of writing one. -/
structure Releases where
  availability : Version → Availability
  compile : Version → Json → CompilerRun
  noThread? : (stackSize : Nat) → Option String := fun _ => none
  readable : (path : String) → Bool := fun _ => true
  writing : (path : String) → Content → FileWrite := fun _ _ => .done
  wording : Wording := {}

/-- What a worker has before it: the scratch file, if there is one, and what a compiler was run on
so far. -/
structure Desk where
  scratch : Option Content
  requests : List (Version × Json)
  deriving DecidableEq

namespace Releases

/-! ## §3. The work -/

/-- The request in a scratch file, when the whole file is one document. -/
def readRequest (wording : Wording) (path : String) (scratch : Option Content) :
    Except ReleaseError Json :=
  match scratch with
  | none => .error (.unreadable path (wording.unopened path))
  | some content =>
    match content.scan with
    | none => .error (.notJson (wording.misread .request content))
    | some (document, rest) =>
      match document.value? with
      | none => .error (.notJson (wording.misread .request content))
      | some value =>
        if Written.skipBlanks rest = [] then .ok value
        else .error (.trailingData (wording.trailing content))

variable (r : Releases)

/-- The version to run, if it can be run. -/
def select (version : String) : Except ReleaseError Version :=
  match Version.parse? version with
  | none => .error (.badVersion (r.wording.misread .version (.text version)))
  | some v =>
    match r.availability v with
    | .atHand => .ok v
    | .unseen reason => .error (.uninspected reason)
    | .missing reason => .error (.notInstalled v reason)

/-- The request that a worker finds. -/
def request (path : String) (d : Desk) : Except ReleaseError Json :=
  readRequest r.wording path (if r.readable path then d.scratch else none)

/-- Runs the compiler of a version on a request. -/
def compileOn (v : Version) (request : Json) (d : Desk) : CompilerRun × Desk :=
  (r.compile v request, { d with requests := d.requests ++ [(v, request)] })

/-- Writes an output over the scratch file. -/
def overwrite (path : String) (output : Content) (d : Desk) : Except ReleaseError Unit × Desk :=
  (match (r.writing path output).failure? with
    | some reason => .error (.unwritable path reason)
    | none => .ok (),
    { d with scratch := (r.writing path output).left output d.scratch })

/-- What a worker does, one step after the other, up to the first that fails. -/
def work (version path : String) (d : Desk) : Except ReleaseError Unit × Desk :=
  match r.select version with
  | .error e => (.error e, d)
  | .ok v =>
    match r.request path d with
    | .error e => (.error e, d)
    | .ok request =>
      let (result, d) := r.compileOn v request d
      if result.status.success then r.overwrite path result.output d
      else (.error (.failed v result.complaint), d)

/-- The work on a thread with a stack of some size, if such a thread can be started. -/
def run (version path : String) (stackSize : Nat) (d : Desk) : Except ReleaseError Unit × Desk :=
  match r.noThread? stackSize with
  | some reason => (.error (.noThread reason), d)
  | none => r.work version path d

end Releases

end FuzzBundle
