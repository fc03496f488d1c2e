/-
  FuzzBundle.Configuration.Basic — what can be configured.

  There is a default for everything (`Configuration.default`). A file in the project and whoever
  calls may override single settings, in this order, and after either step the result is checked
  (`Configuration.load`). `Overrides.ofText` reads overrides and refuses settings it does not
  know.
-/
import FuzzBundle.Configuration.Setting
import FuzzBundle.Number.Plain
import FuzzBundle.Project.Basic

namespace FuzzBundle

/-! ## §1. Configurations -/

/-- A configuration. -/
structure Configuration where
  scratchFolder : String
  keepScratch : Bool
  workerProgram? : Option String
  workerArguments : List String
  stackSize : Nat
  forgeProgram : String
  optimizerRuns : Nat
  npmProgram : String
  npxProgram : String
  npmInstall : Bool
  rpcUrl : String
  lengthTolerance : Binary64
  deriving DecidableEq

/-- What is overridden in a configuration. -/
structure Overrides where
  scratchFolder? : Option String := none
  keepScratch? : Option Bool := none
  workerProgram? : Option String := none
  workerArguments? : Option (List String) := none
  stackSize? : Option Nat := none
  forgeProgram? : Option String := none
  optimizerRuns? : Option Nat := none
  npmProgram? : Option String := none
  npxProgram? : Option String := none
  npmInstall? : Option Bool := none
  rpcUrl? : Option String := none
  lengthTolerance? : Option Binary64 := none
  deriving DecidableEq

/-- What holds where nothing is configured. -/
def Configuration.default : Configuration where
  scratchFolder := ".tmp"
  keepScratch := false
  workerProgram? := none
  workerArguments := ["solc-worker"]
  stackSize := 64 * 1024 * 1024
  forgeProgram := "forge"
  optimizerRuns := 1000
  npmProgram := "npm"
  npxProgram := "npx"
  npmInstall := true
  rpcUrl := "http://127.0.0.1:8545"
  lengthTolerance := .ofDecimal false 1 (-1)

/-! ## §2. Reading overrides -/

namespace Setting

/-- A setting that is a text. -/
def text? : Setting → Option String
  | .text s => some s
  | _ => none

/-- A setting that is a truth value. -/
def flag? : Setting → Option Bool
  | .flag b => some b
  | _ => none

/-- A setting that is a list of texts. -/
def texts? : Setting → Option (List String)
  | .texts items => some items
  | _ => none

/-- A setting that is a natural number below a bound. -/
def natural? (bound : Nat) : Setting → Option Nat
  | .integer n => if 0 ≤ n ∧ n < bound then some n.toNat else none
  | _ => none

/-- A setting that is a number. -/
def double? : Setting → Option Binary64
  | .integer n => some (if n < 0 then (Binary64.ofNat n.natAbs).neg else .ofNat n.natAbs)
  | .real x => some x
  | _ => none

end Setting

namespace Overrides

/-- Adds the setting with a key. A key that is not known and a value of another kind are refused. -/
def set? (o : Overrides) (setting : String × Setting) : Option Overrides :=
  let value := setting.2
  match setting.1 with
  | "scratch-dir" => value.text?.map fun s => { o with scratchFolder? := some s }
  | "keep-scratch" => value.flag?.map fun b => { o with keepScratch? := some b }
  | "worker-program" => value.text?.map fun s => { o with workerProgram? := some s }
  | "worker-args" => value.texts?.map fun ss => { o with workerArguments? := some ss }
  | "stack-size" => (value.natural? (Nat.pow 2 64)).map fun n => { o with stackSize? := some n }
  | "forge-program" => value.text?.map fun s => { o with forgeProgram? := some s }
  | "forge-optimizer-runs" =>
    (value.natural? (Nat.pow 2 32)).map fun n => { o with optimizerRuns? := some n }
  | "npm-program" => value.text?.map fun s => { o with npmProgram? := some s }
  | "npx-program" => value.text?.map fun s => { o with npxProgram? := some s }
  | "npm-install" => value.flag?.map fun b => { o with npmInstall? := some b }
  | "rpc-url" => value.text?.map fun s => { o with rpcUrl? := some s }
  | "length-tolerance" => value.double?.map fun x => { o with lengthTolerance? := some x }
  | _ => none

end Overrides

/-- Why there is no configuration. -/
inductive ConfigurationError where
  | unreadable (path reason : String)
  | malformed (reason : String)
  | noStack
  | badTolerance (tolerance : Binary64)
  deriving DecidableEq, Repr

/-- The text of an error. -/
def ConfigurationError.message : ConfigurationError → String
  | .unreadable path reason => Text.withContext ("Failed to read " ++ path) reason
  | .malformed reason => Text.withContext "Failed to parse bundler.toml" reason
  | .noStack => "stack-size must be greater than zero"
  | .badTolerance tolerance =>
    "length-tolerance must be a non-negative number, got " ++ tolerance.plain

/-- The overrides in a text. -/
def Overrides.ofText (wording : Wording) (text : String) :
    Except ConfigurationError Overrides :=
  match (Setting.read? text).bind fun settings => settings.foldlM Overrides.set? {} with
  | some o => .ok o
  | none => .error (.malformed (wording.misread .settings (.text text)))

/-! ## §3. Putting a configuration together -/

namespace Configuration

/-- The configuration with some settings overridden. -/
def override (c : Configuration) (o : Overrides) : Configuration where
  scratchFolder := o.scratchFolder?.getD c.scratchFolder
  keepScratch := o.keepScratch?.getD c.keepScratch
  workerProgram? := o.workerProgram?.orElse fun _ => c.workerProgram?
  workerArguments := o.workerArguments?.getD c.workerArguments
  stackSize := o.stackSize?.getD c.stackSize
  forgeProgram := o.forgeProgram?.getD c.forgeProgram
  optimizerRuns := o.optimizerRuns?.getD c.optimizerRuns
  npmProgram := o.npmProgram?.getD c.npmProgram
  npxProgram := o.npxProgram?.getD c.npxProgram
  npmInstall := o.npmInstall?.getD c.npmInstall
  rpcUrl := o.rpcUrl?.getD c.rpcUrl
  lengthTolerance := o.lengthTolerance?.getD c.lengthTolerance

/-- Whether a length may differ by such a fraction. -/
def isTolerance : Binary64 → Bool
  | .finite negative significand _ => !negative || significand == 0
  | _ => false

/-- The configuration, if it makes sense. -/
def check (c : Configuration) : Except ConfigurationError Configuration :=
  if c.stackSize = 0 then .error .noStack
  else if isTolerance c.lengthTolerance then .ok c
  else .error (.badTolerance c.lengthTolerance)

/-- The file of a project that configures it. -/
def fileName : String := "bundler.toml"

/-- The overrides in the file of a project, if it has one. -/
def fileOverrides (p : Project) : Except ConfigurationError Overrides :=
  match p.file? fileName with
  | none => .ok {}
  | some content =>
    match content.text? with
    | some text => Overrides.ofText p.wording text
    | none => .error (.unreadable (p.pathOf fileName) (p.wording.noText (p.pathOf fileName)))

/-- The configuration of a project: the defaults with the overrides of its file and then with
those of the caller. -/
def load (p : Project) (o : Overrides) : Except ConfigurationError Configuration := do
  let inFile ← fileOverrides p
  let c ← (Configuration.default.override inFile).check
  (c.override o).check

end Configuration

end FuzzBundle
