/-
  FuzzBundle.Project.Kind — the kinds of projects.

  A kind may be asked for by one of its names. Otherwise files in the project tell which kind it is,
  and a project without any of them is a folder of sources.
-/
import FuzzBundle.Project.Sources
import FuzzBundle.Project.Tooling

namespace FuzzBundle

/-- The kinds of projects. -/
inductive ProjectKind where
  | sourceFolder
  | forge
  | hardhat
  deriving DecidableEq, Repr

namespace ProjectKind

/-- The name of a kind. -/
def name : ProjectKind → String
  | .sourceFolder => "solidity_folder"
  | .forge => "forge"
  | .hardhat => "hardhat"

/-- The kind with a name. The case of letters and white space around the name do not matter. -/
def ofName (asked : String) : Except ProjectError ProjectKind :=
  match String.ofList ((Text.trim asked).toList.map Char.toLower) with
  | "solidity_folder" | "folder" => .ok .sourceFolder
  | "forge" | "foundry" => .ok .forge
  | "hardhat" => .ok .hardhat
  | _ => .error (.unknownKind asked)

/-- The files of which a Forge project has one. -/
def forgeFiles : List String := ["foundry.toml", "forge.toml"]

/-- The files of which a Hardhat project has one. -/
def hardhatFiles : List String := ["hardhat.config.js", "hardhat.config.ts"]

/-- The kind of a project. -/
def detect (p : Project) : ProjectKind :=
  if forgeFiles.any fun file => (p.file? file).isSome then .forge
  else if hardhatFiles.any fun file => (p.file? file).isSome then .hardhat
  else .sourceFolder

end ProjectKind

namespace Project

/-- The units of a project of a kind, and the workshop afterwards. Only a folder of sources needs to
be told the compiler version; only Forge needs a fresh name. -/
def units (kind : ProjectKind) (p : Project) (version : Option String) (toolbox : Toolbox)
    (c : Configuration) (freshName : String) :
    Except ProjectError (List BuildUnit) × Workshop :=
  let w : Workshop := ⟨p, []⟩
  match kind with
  | .sourceFolder => ((Sources.unitOf p version).map fun unit => [unit], w)
  | .forge => Tooling.buildWithForge toolbox c freshName w
  | .hardhat => Tooling.buildWithHardhat toolbox c w

end Project

end FuzzBundle
