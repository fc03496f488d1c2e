/-
  FuzzBundle.Bundle.Build — from a project to the artifacts of its units.

  Every unit is compiled on its own, and one that fails gives an artifact that says so. Only a
  project without units to compile is an error.
-/
import FuzzBundle.Artifact.Assembly
import FuzzBundle.Compiler.Task
import FuzzBundle.Project.Kind

namespace FuzzBundle

/-! ## §1. Units -/

/-- The unit with the forced outputs, as it is compiled and recorded. -/
def forcedUnit (u : BuildUnit) : BuildUnit :=
  { u with document := u.document.withForcedOutputs }

/-- The task of compiling a unit, with the path of its scratch file. -/
def unitTask (i : Invoker) (path : String) (u : BuildUnit) : Task :=
  ⟨i, path, u.version, (forcedUnit u).document⟩

/-- Compiles a unit. -/
def compileUnit (i : Invoker) (path : String) (u : BuildUnit) (target? : Option String) :
    Artifact :=
  Artifact.assemble (unitTask i path u).outcome (forcedUnit u) target?

/-- Compiles some units, given paths for their scratch files. The artifacts are in the order of the
units. -/
def compileUnits (i : Invoker) (scratch : Nat → String) (units : List BuildUnit)
    (target? : Option String) : List Artifact :=
  units.mapIdx fun n u => compileUnit i (scratch n) u target?

/-! ## §2. Projects -/

/-- What a build finds around it: the program that runs, which can also be a worker, the other
programs at hand, what comes of writing a file into a folder that is made for it, and names that
nobody has used. -/
structure Surroundings where
  executable : String
  toolbox : Toolbox
  worker : (program : String) → Worker
  writing : (folder path : String) → Content → FileWrite
  wording : Wording := {}
  freshFolder : String
  freshScratch : Nat → String
  freshAddress : Nat → String

/-- The program that is the worker. -/
def Configuration.workerProgram (c : Configuration) (executable : String) : String :=
  c.workerProgram?.getD executable

/-- How workers are called. -/
def Surroundings.invoker (s : Surroundings) (c : Configuration) : Invoker where
  program := c.workerProgram s.executable
  arguments := c.workerArguments
  stackSize := c.stackSize
  keepScratch := c.keepScratch
  writing := s.writing c.scratchFolder
  worker := s.worker (c.workerProgram s.executable)
  wording := s.wording

/-- Which project is built, as which kind, with which compiler version, and for which contract. -/
structure BuildRequest where
  project : Project
  kind? : Option ProjectKind
  version? : Option String
  target? : Option String

/-- The artifacts of a project, and the workshop after it was built. -/
def buildProject (s : Surroundings) (c : Configuration) (r : BuildRequest) :
    Except ProjectError (List Artifact) × Workshop :=
  let kind := r.kind?.getD (ProjectKind.detect r.project)
  let (units, after) := r.project.units kind r.version? s.toolbox c s.freshFolder
  (units.map fun units => compileUnits (s.invoker c) s.freshScratch units r.target?, after)

end FuzzBundle
