/-
  FuzzBundle.Artifact.Assembly — making the artifact of a compilation.

  A compilation that fails, or whose output cannot be projected, gives an artifact with nothing but
  the reason. Otherwise all fields are filled from the output; invariants that cannot be extracted
  are left out.
-/
import FuzzBundle.Artifact.Basic
import FuzzBundle.Compiler.Outcome
import FuzzBundle.Projection.Unit

namespace FuzzBundle.Artifact

/-- A field of the contracts of an output: for all of them, or for the one with the wanted name. Of
several contracts with that name the one in the last file is taken. -/
def perContract (output : CompilerOutput) (wanted? : Option String) (select : ContractOutput → α) :
    Option (PerContract α) :=
  match wanted? with
  | none => some (.nested (output.contracts.map fun _ contracts => contracts.map fun _ => select))
  | some wanted =>
    let named := output.contracts.values.filterMap (·.get? wanted)
    named.getLast?.map fun contract => .single (select contract)

/-- The source files of an output. -/
def sourceRecords (output : CompilerOutput) : Dict SourceRecord :=
  output.sources.map fun _ source => ⟨source.id?, source.source?⟩

/-- The artifact of an output, given its projections. -/
def ofOutput (output : CompilerOutput) (projections : Dict UnitProjection) (args : CompilerArgs)
    (wanted? : Option String) : Artifact where
  success := true
  remappings? := some args.document.settings.remappings
  projections? := some projections
  sourceMap? := perContract output wanted? (·.deployedSourceMap?.getD "")
  sources? := some (sourceRecords output)
  creationCode? := perContract output wanted? (·.creationCode?.getD "")
  deployedCode? := perContract output wanted? (·.deployedCode?.getD "")
  abi? := perContract output wanted? (·.abi?.getD .null)
  invariants? := (Invariant.ofOutput output).toOption
  args? := some args

/-- The artifact of a compilation. -/
def assemble (outcome : CompileOutcome) (args : CompilerArgs) (wanted? : Option String) :
    Artifact :=
  match outcome with
  | .failure f => failed f.message
  | .success output =>
    match Projection.ofOutput output with
    | .error e => failed e.message
    | .ok projections => ofOutput output projections args wanted?

end FuzzBundle.Artifact
