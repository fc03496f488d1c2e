/-
  FuzzBundle.Bundle.Run — running a command.

  A command runs in a session: a folder, the programs around it, and a network. It ends with a
  report of what the folder holds afterwards. Everything that can be wrong with the arguments and
  the files they name is found before anything is built, and the artifacts are written before the
  targets.
-/
import FuzzBundle.Bundle.Arguments
import FuzzBundle.Bundle.Build
import FuzzBundle.Compiler.Release
import FuzzBundle.Deployment.Reconciliation
import FuzzBundle.Deployment.TargetFile
import FuzzBundle.Workspace.Output
import FuzzBundle.Workspace.Reach

namespace FuzzBundle

/-! ## §1. Sessions and reports -/

/-- What a command runs in: the programs around it, the folder it is started in with its path, the
releases of the compiler, and ways to exchange requests with an address. -/
structure Session (σ : Type u) where
  surroundings : Surroundings
  path : String
  tree : Tree
  releases : Releases
  exchange : (url : String) → Rpc.Exchange σ
  network : σ

/-- Why a command failed. -/
inductive CommandError where
  | project (e : ProjectError)
  | configuration (e : ConfigurationError)
  | targets (e : TargetFileError)
  | output (e : OutputError)
  | release (e : ReleaseError)
  deriving DecidableEq, Repr

/-- The text of an error. -/
def CommandError.message : CommandError → String
  | .project e => e.message
  | .configuration e => e.message
  | .targets e => e.message
  | .output e => e.message
  | .release e => e.message

/-- How a command ended. -/
inductive Ending where
  | done
  | failed (e : CommandError)
  | misused
  deriving DecidableEq, Repr

/-- The exit code of an ending. -/
def Ending.exitCode : Ending → Nat
  | .done => 0
  | .failed _ => 1
  | .misused => 2

/-- What is said about an ending. -/
def Ending.text? : Ending → Option String
  | .failed e => some ("Error: " ++ e.message)
  | .done | .misused => none

/-- What a command left behind: its ending, its folder and the network. -/
structure Report (σ : Type u) where
  ending : Ending
  tree : Tree
  network : σ

/-! ## §2. Building -/

namespace Session

variable {σ : Type u}

/-- The path of a place from the top of all folders. -/
def pathOf (s : Session σ) : Place → String
  | .inside [] => s.path
  | .inside reversed => Path.join s.path (Path.ofNames reversed.reverse)
  | .outside reversed => "/" ++ Path.ofNames reversed.reverse
  | .free => s.path

/-- The project in the folder with a path. -/
def projectAt (s : Session σ) (path : String) : Project :=
  let entries? := s.tree.folderAt? path
  { path := path
    absolutePath :=
      match s.tree.place? path, entries? with
      | some place, some _ => s.pathOf place
      | _, _ => Path.join s.path path
    tree? := entries?.map fun entries => .folder (Reach.entriesBelow path entries)
    unlisted? := entries?.bind (Reach.unlistedIn? path)
    wording := s.surroundings.wording }

/-- The targets in the file with a path. -/
def targetsAt (s : Session σ) (path : String) : Except TargetFileError TargetMap :=
  TargetMap.ofFile s.surroundings.wording path (s.tree.fileAt? path)

/-- What a build needs to know before it begins. -/
structure Plan where
  request : BuildRequest
  configuration : Configuration
  targets? : Option TargetMap

/-- What the arguments of a build override. -/
def overridesOf (a : BuildArguments) : Overrides :=
  { rpcUrl? := a.rpcUrl?, keepScratch? := if a.keepScratch then some true else none }

/-- The plan of a build. -/
def plan (s : Session σ) (a : BuildArguments) : Except CommandError Plan := do
  let kind? ← (a.kind?.mapM ProjectKind.ofName).mapError .project
  let project := s.projectAt a.folder
  let configuration ← (Configuration.load project (overridesOf a)).mapError .configuration
  let targets? ← (a.targets?.mapM s.targetsAt).mapError .targets
  return {
    request := {
      project := project, kind? := kind?, version? := a.version?, target? := a.target? }
    configuration := configuration
    targets? := targets? }

/-- Finds the addresses of what was built, unless nothing is to be deployed. -/
def deploy (s : Session σ) (noDeploy : Bool) (p : Plan) (artifacts : List Artifact) :
    Reconciliation.Reconciled × σ :=
  let fresh := s.surroundings.freshAddress
  if noDeploy then
    (⟨artifacts, p.targets?.getD (TargetMap.seed fresh artifacts)⟩, s.network)
  else
    let node := Rpc.node s.surroundings.wording (s.exchange p.configuration.rpcUrl)
    let (result, state) := Reconciliation.reconcile node fresh artifacts p.targets?
      p.configuration.lengthTolerance (1, s.network)
    (result, state.2)

/-- Writes what was built: the artifacts, and then the targets. The folder is also returned when
only the first of them could be written. -/
def writeResults (wording : Wording) (tree : Tree) (a : BuildArguments)
    (r : Reconciliation.Reconciled) : Ending × Tree :=
  match tree.writeRecord wording "" a.output r.artifacts with
  | .error e => (.failed (.output e), tree)
  | .ok tree =>
    match tree.writeRecord wording "" a.targetsOutput r.targets with
    | .error e => (.failed (.output e), tree)
    | .ok tree => (.done, tree)

/-- The folder of the session with the folder of a project in it as tools left it. -/
def treeAfter (s : Session σ) (a : BuildArguments) (w : Workshop) : Tree :=
  match s.tree.place? a.folder, w.project.tree? with
  | some (.inside reversed), some t =>
    if w.calls.isEmpty then s.tree else s.tree.put reversed.reverse t
  | _, _ => s.tree

/-- The folder with the one for scratch files in it. -/
def withScratchFolder (tree : Tree) (c : Configuration) : Tree :=
  (tree.makeFolder c.scratchFolder).1

/-- Builds a project. The folder for scratch files stays when something was compiled. -/
def build (s : Session σ) (a : BuildArguments) : Report σ :=
  match s.plan a with
  | .error e => ⟨.failed e, s.tree, s.network⟩
  | .ok p =>
    let (built, workshop) := buildProject s.surroundings p.configuration p.request
    let tree := s.treeAfter a workshop
    match built with
    | .error e => ⟨.failed (.project e), tree, s.network⟩
    | .ok artifacts =>
      let tree := if artifacts.isEmpty then tree else withScratchFolder tree p.configuration
      let (result, network) := s.deploy a.noDeploy p artifacts
      let (ending, tree) := writeResults s.surroundings.wording tree a result
      ⟨ending, tree, network⟩

/-! ## §3. Commands -/

/-- The folder of the session with this in the file that a path names. -/
def treeWith (s : Session σ) (path : String) (content? : Option Content) : Tree :=
  (content?.bind (s.tree.writeAt? path)).getD s.tree

/-- Runs a release of the compiler on a scratch file, on a stack of its own. -/
def work (s : Session σ) (version scratch : String) (stackSize : Nat) : Report σ :=
  let (result, desk) := s.releases.run version scratch stackSize ⟨s.tree.fileAt? scratch, []⟩
  let ending :=
    match result with
    | .error e => .failed (.release e)
    | .ok () => .done
  ⟨ending, s.treeWith scratch desk.scratch, s.network⟩

/-- Runs the command that some arguments ask for. A request for help does nothing. -/
def run (s : Session σ) (arguments : List String) : Report σ :=
  match Command.ofArguments arguments with
  | .asked (.build a) => s.build a
  | .asked (.worker version scratch stackSize) => s.work version scratch stackSize
  | .help => ⟨.done, s.tree, s.network⟩
  | .misused => ⟨.misused, s.tree, s.network⟩

end Session

end FuzzBundle
