/-
  FuzzBundle.Compiler.Task — compiling one document with one worker.

  A compilation is done in four steps: the forced document is written to a scratch file, the
  worker is run on that file, what it left is judged, and the file is removed. `Task.step` does
  the next step in a directory of scratch files, so that the steps of several tasks can be
  interleaved; `Task.run` does them all. A task whose document cannot be written is over at once,
  and what was written of it by then stays.

  Requests and answers go through the same file. A worker is any function from its arguments and the
  file to what it leaves there.
-/
import FuzzBundle.Compiler.Input
import FuzzBundle.Compiler.Outcome

namespace FuzzBundle

/-! ## §1. Workers -/

/-- What a worker did: the scratch file afterwards, its error output, and how it ended. -/
structure WorkerRun where
  left : Option Content
  errors : Content
  status : ExitStatus
  deriving DecidableEq

/-- A worker, run with arguments on a scratch file. -/
abbrev Worker := List String → Option Content → Launch WorkerRun

/-- How workers are called, and what comes of writing a scratch file with some content. -/
structure Invoker where
  program : String
  arguments : List String
  stackSize : Nat
  keepScratch : Bool
  writing : (path : String) → Content → FileWrite := fun _ _ => .done
  worker : Worker
  wording : Wording := {}

/-- The arguments of a worker: those it is configured with, the compiler version, the scratch file
and the size of its stack. -/
def Invoker.argumentsFor (i : Invoker) (version path : String) : List String :=
  i.arguments ++ [version, path, "--stack-size", String.ofList (Nat.toDigits 10 i.stackSize)]

/-- The error text of a run. -/
def WorkerRun.errorText (r : WorkerRun) : String := r.errors.shownText

/-- Why a run failed, if it did: its error text, or how it ended when that is blank. -/
def WorkerRun.failure? (r : WorkerRun) : Option WorkerFailure :=
  if r.status.success then none
  else
    let text := Text.trim r.errorText
    some (if text = "" then .ended r.status else .reported text)

/-! ## §2. Steps -/

/-- The files of a directory by path. -/
abbrev ScratchFiles := Dict Content

/-- A document to compile with a compiler version, and the path of the scratch file for it. -/
structure Task where
  invoker : Invoker
  path : String
  version : String
  document : InputDocument

/-- How far a task has come. -/
inductive Task.Stage where
  | ready
  | prepared
  | worked (failure? : Option CompileFailure)
  | judged (outcome : CompileOutcome)
  | finished (outcome : CompileOutcome)

namespace Task

/-- The document that is compiled. -/
def forced (t : Task) : InputDocument := t.document.withForcedOutputs

/-- The request, as it is written to the scratch file. -/
def request (t : Task) : Content := .text t.forced.text

/-- What comes of writing the request. -/
def writing (t : Task) : FileWrite := t.invoker.writing t.path t.request

/-- The outcome when the request is not written. -/
def unwritten (t : Task) (reason : String) : CompileOutcome :=
  .failure (.scratch (t.path ++ ": " ++ reason))

/-- The files after the worker's run and the failure it gives, if any. -/
def work (t : Task) (files : ScratchFiles) : ScratchFiles × Option CompileFailure :=
  match t.invoker.worker (t.invoker.argumentsFor t.version t.path) (files.get? t.path) with
  | .refused reason => (files, some (.worker (.notStarted t.invoker.program reason)))
  | .ran r =>
    let files :=
      match r.left with
      | some content => files.insert t.path content
      | none => files.erase t.path
    (files, r.failure?.map .worker)

/-- The outcome of the file that the worker left. -/
def judge (t : Task) (files : ScratchFiles) : CompileOutcome :=
  match files.get? t.path with
  | some content => .judge t.invoker.wording content t.forced.sourceContents
  | none => .failure (.worker (.leftNothing t.path (t.invoker.wording.unopened t.path)))

/-- Does the next step. A task whose request is not written is finished at once, and what was
written of it is not removed. -/
def step (t : Task) (files : ScratchFiles) : Stage → ScratchFiles × Stage
  | .ready =>
    match t.writing with
    | .done => (files.insert t.path t.request, .prepared)
    | .refused reason => (files, .finished (t.unwritten reason))
    | .brokenOff reason written =>
      (files.insert t.path (t.request.upTo written), .finished (t.unwritten reason))
  | .prepared =>
    let (files, failure?) := t.work files
    (files, .worked failure?)
  | .worked (some failure) => (files, .judged (.failure failure))
  | .worked none => (files, .judged (t.judge files))
  | .judged outcome =>
    (if t.invoker.keepScratch then files else files.erase t.path, .finished outcome)
  | .finished outcome => (files, .finished outcome)

/-- The files and the outcome after a task was done from the beginning to its end. -/
def run (t : Task) (files : ScratchFiles) : ScratchFiles × CompileOutcome :=
  match t.writing with
  | .refused reason => (files, t.unwritten reason)
  | .brokenOff reason written =>
    (files.insert t.path (t.request.upTo written), t.unwritten reason)
  | .done =>
    let (files, failure?) := t.work (files.insert t.path t.request)
    let outcome :=
      match failure? with
      | some failure => .failure failure
      | none => t.judge files
    (if t.invoker.keepScratch then files else files.erase t.path, outcome)

/-- The outcome of a task by itself. -/
def outcome (t : Task) : CompileOutcome := (t.run Dict.empty).2

end Task

end FuzzBundle
