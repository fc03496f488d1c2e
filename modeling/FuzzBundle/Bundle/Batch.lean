/-
  FuzzBundle.Bundle.Batch — units that are compiled at the same time.

  The units of a batch share one directory of scratch files. Each of them goes through the steps of
  its task and then makes its artifact, and nothing says in which order the units take their steps:
  a run follows a schedule, which names for every step the unit that takes it. The artifacts are
  there when every unit has made its own, in the order of the units.

  `compileUnits` compiles the same units one by one, each in a directory of its own.
-/
import FuzzBundle.Bundle.Build

namespace FuzzBundle

/-! ## §1. One unit -/

/-- How far a unit has come. -/
inductive UnitStage where
  | compiling (stage : Task.Stage)
  | assembled (artifact : Artifact)

/-- Does the next step of a unit: one of its task, or the last one, which makes the artifact. -/
def unitStep (i : Invoker) (path : String) (u : BuildUnit) (target? : Option String)
    (files : ScratchFiles) : UnitStage → ScratchFiles × UnitStage
  | .compiling (.finished outcome) =>
    (files, .assembled (Artifact.assemble outcome (forcedUnit u) target?))
  | .compiling stage =>
    let (files, stage) := (unitTask i path u).step files stage
    (files, .compiling stage)
  | .assembled artifact => (files, .assembled artifact)

/-! ## §2. Many units -/

/-- Units to compile at the same time, with a path for the scratch file of each. -/
structure Batch where
  invoker : Invoker
  scratch : Nat → String
  units : List BuildUnit
  target? : Option String

namespace Batch

/-- The directory and how far every unit has come. -/
structure State where
  files : ScratchFiles
  stages : List UnitStage

/-- No unit has taken a step. -/
def start (b : Batch) (files : ScratchFiles) : State :=
  ⟨files, b.units.map fun _ => .compiling .ready⟩

/-- The unit with this number takes its next step. -/
def step (b : Batch) (s : State) (n : Nat) : State :=
  match b.units[n]?, s.stages[n]? with
  | some u, some stage =>
    let (files, stage) := unitStep b.invoker (b.scratch n) u b.target? s.files stage
    ⟨files, s.stages.set n stage⟩
  | _, _ => s

/-- The units take steps in the order of a schedule. -/
def run (b : Batch) (schedule : List Nat) (s : State) : State := schedule.foldl b.step s

/-- The artifacts of some units, if all of them have made theirs. -/
def collect : List UnitStage → Option (List Artifact)
  | [] => some []
  | .assembled artifact :: rest => (collect rest).map (artifact :: ·)
  | .compiling _ :: _ => none

/-- The artifacts of a batch in the order of its units, when all of them are there. -/
def State.artifacts? (s : State) : Option (List Artifact) := collect s.stages

end Batch

end FuzzBundle
