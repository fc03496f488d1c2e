/-
  FuzzBundle.Compiler.Outcome — how a compilation ends.

  A compilation gives an output or fails for one of the causes below. `CompileFailure.message` is
  the text of each, and `CompileOutcome.judge` decides about the text that a worker left.
-/
import FuzzBundle.Compiler.Output
import FuzzBundle.Json.Bytes
import FuzzBundle.Text.Lines

namespace FuzzBundle

/-- Why a worker did not do its work. -/
inductive WorkerFailure where
  | notStarted (program reason : String)
  | reported (text : String)
  | ended (status : ExitStatus)
  | leftNothing (path reason : String)
  deriving DecidableEq, Repr

/-- Why a compilation gives no output. -/
inductive CompileFailure where
  | diagnostics (text : String)
  | worker (failure : WorkerFailure)
  | scratch (reason : String)
  | malformedOutput (reason : String)
  deriving DecidableEq, Repr

/-- The text of a failure of a worker. -/
def WorkerFailure.message : WorkerFailure → String
  | .notStarted program reason => "failed to launch " ++ program ++ ": " ++ reason
  | .reported text => text
  | .ended status => "worker exited with " ++ status.text
  | .leftNothing path reason => "worker left no output at " ++ path ++ ": " ++ reason

/-- The text of a failure. -/
def CompileFailure.message : CompileFailure → String
  | .diagnostics text => "compiler reported errors:\n" ++ text
  | .worker failure => "compiler worker failed: " ++ failure.message
  | .scratch reason => "scratch file error: " ++ reason
  | .malformedOutput reason => "malformed compiler output: " ++ reason

/-- How a compilation ends. -/
inductive CompileOutcome where
  | success (output : CompilerOutput)
  | failure (f : CompileFailure)
  deriving DecidableEq

namespace CompileOutcome

/-- The output, if there is one. -/
def output? : CompileOutcome → Option CompilerOutput
  | .success output => some output
  | .failure _ => none

/-- The outcome of an output document: its errors if it reports any, and otherwise the output with
the given source texts laid over it. -/
def ofOutput (output : CompilerOutput) (contents : List (String × String)) : CompileOutcome :=
  if output.hasErrors then
    .failure (.diagnostics (Text.joinLines (output.errorDiagnostics.map Diagnostic.text)))
  else .success (output.overlaySources contents)

/-- The outcome of what a worker left. -/
def judge (wording : Wording) (left : Content) (contents : List (String × String)) :
    CompileOutcome :=
  match CompilerOutput.read? left.documentText with
  | some output => ofOutput output contents
  | none => .failure (.malformedOutput (wording.misread .output left))

end CompileOutcome

end FuzzBundle
