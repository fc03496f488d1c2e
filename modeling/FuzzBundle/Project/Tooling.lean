/-
  FuzzBundle.Project.Tooling — projects that are built with a tool of their own.

  The tools leave build info, and every fragment of it is a unit. Forge is told where to put it,
  in a folder with a fresh name that is removed afterwards; Hardhat has a fixed place for it, and
  leaving nothing there is no error.
-/
import FuzzBundle.Configuration.Basic
import FuzzBundle.Project.Fragment
import FuzzBundle.Project.Workshop

namespace FuzzBundle.Tooling

/-! ## §1. Forge -/

/-- The arguments for Forge: where to put the build info, and how often optimised code will run. -/
def forgeArguments (path : String) (runs : Nat) : List String :=
  ["build", "--build-info", "--build-info-path", path, "--force", "--optimizer-runs",
    String.ofList (Nat.toDigits 10 runs)]

/-- The units of the build info that Forge left in a folder, after a run that may have failed. -/
def forgeUnits (wording : Wording) (path : String) (ran : Except ProjectError Unit)
    (entries? : Option (List (String × Tree))) : Except ProjectError (List BuildUnit) :=
  match ran with
  | .error e => .error e
  | .ok () =>
    match entries? with
    | some entries => Fragment.readAll wording path (Fragment.filesIn entries)
    | none => .error (.noFragments path)

/-- Builds a project with Forge, which puts its build info into the folder with a given name. -/
def buildWithForge (toolbox : Toolbox) (c : Configuration) (name : String) (w : Workshop) :
    Except ProjectError (List BuildUnit) × Workshop :=
  let path := Path.join w.project.absolutePath name
  let (ran, after) := w.run toolbox c.forgeProgram (forgeArguments path c.optimizerRuns)
  (forgeUnits w.project.wording path ran (after.folder? [name]),
    if c.keepScratch then after else after.removeFolder name)

/-! ## §2. Hardhat -/

/-- Where Hardhat leaves its build info. -/
def hardhatFolder : List String := ["artifacts", "build-info"]

/-- Installs what a project needs, if that is wanted. -/
def install (toolbox : Toolbox) (c : Configuration) (w : Workshop) :
    Except ProjectError Unit × Workshop :=
  if c.npmInstall then w.run toolbox c.npmProgram ["i"] else (.ok (), w)

/-- Builds a project with Hardhat. -/
def buildWithHardhat (toolbox : Toolbox) (c : Configuration) (w : Workshop) :
    Except ProjectError (List BuildUnit) × Workshop :=
  match install toolbox c w with
  | (.error e, after) => (.error e, after)
  | (.ok (), installed) =>
    match installed.run toolbox c.npxProgram ["hardhat", "compile"] with
    | (.error e, after) => (.error e, after)
    | (.ok (), after) =>
      match after.folder? hardhatFolder with
      | some entries =>
        let path := after.project.pathOf (Path.ofNames hardhatFolder)
        (Fragment.readAll w.project.wording path (Fragment.filesIn entries), after)
      | none => (.ok [], after)

end FuzzBundle.Tooling
