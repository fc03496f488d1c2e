import FuzzBundle.Artifact.Assembly
import FuzzBundle.Bundle.Arguments
import FuzzBundle.Bundle.Build
import FuzzBundle.Compiler.Release
import FuzzBundle.Compiler.Task
import FuzzBundle.Configuration.Basic
import FuzzBundle.Configuration.Setting
import FuzzBundle.Deployment.Reconciliation
import FuzzBundle.Deployment.TargetFile
import FuzzBundle.Json.Bytes
import FuzzBundle.Main
import FuzzBundle.Project.Fragment
import FuzzBundle.Project.Kind
import FuzzBundle.Project.Sources
import FuzzBundle.Projection.Render
import FuzzBundle.Proofs.Agreement
import FuzzBundle.Proofs.AppliedAddresses
import FuzzBundle.Proofs.ArgumentNames
import FuzzBundle.Proofs.AssemblyReading
import FuzzBundle.Proofs.BitDistance
import FuzzBundle.Proofs.CompileOutcomes
import FuzzBundle.Proofs.ContractMembers
import FuzzBundle.Proofs.Deployments
import FuzzBundle.Proofs.Documentation
import FuzzBundle.Proofs.EchoedRequest
import FuzzBundle.Proofs.ExpressionReading
import FuzzBundle.Proofs.Extraction
import FuzzBundle.Proofs.FolderSources
import FuzzBundle.Proofs.FunctionSignatures
import FuzzBundle.Proofs.Headers
import FuzzBundle.Proofs.Interleaving
import FuzzBundle.Proofs.KeptFields
import FuzzBundle.Proofs.KeptTargets
import FuzzBundle.Proofs.LinkedCode
import FuzzBundle.Proofs.LongVersions
import FuzzBundle.Proofs.NearestCandidate
import FuzzBundle.Proofs.NestedSource
import FuzzBundle.Proofs.OutputReading
import FuzzBundle.Proofs.PragmaSpacing
import FuzzBundle.Proofs.QuotedText
import FuzzBundle.Proofs.ReplayedRequest
import FuzzBundle.Proofs.RestoredArtifacts
import FuzzBundle.Proofs.SeededTargets
import FuzzBundle.Proofs.SourceOrder
import FuzzBundle.Proofs.StateVariables
import FuzzBundle.Proofs.TemporaryFiles
import FuzzBundle.Proofs.TypeConversions
import FuzzBundle.Proofs.WorkerRuns
import FuzzBundle.Text.Context
import FuzzBundle.Workspace.Lookup
import FuzzBundle.Workspace.Machine
import FuzzBundle.Workspace.Path
import FuzzBundle.Workspace.Reach
import FuzzBundle.Workspace.Tree
