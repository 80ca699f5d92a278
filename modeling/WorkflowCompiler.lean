import WorkflowCompiler.Main
import WorkflowCompiler.Source.Json
import WorkflowCompiler.Proofs.Basic
import WorkflowCompiler.Proofs.Names
import WorkflowCompiler.Proofs.Lowering
import WorkflowCompiler.Proofs.ControlFlow
import WorkflowCompiler.Proofs.Closure
import WorkflowCompiler.Proofs.BreadthFirst
import WorkflowCompiler.Proofs.Assembly
import WorkflowCompiler.Proofs.Compilation
import WorkflowCompiler.Proofs.Locality
import WorkflowCompiler.Proofs.JsonText
import WorkflowCompiler.Proofs.JsonReading
import WorkflowCompiler.Proofs.WireForm
import WorkflowCompiler.Proofs.Wire
import WorkflowCompiler.Proofs.Verification
import WorkflowCompiler.Proofs.FileTree
import WorkflowCompiler.Proofs.FileSystem
import WorkflowCompiler.Proofs.Lockstep
import WorkflowCompiler.Proofs.ArtifactFile
import WorkflowCompiler.Proofs.Record
import WorkflowCompiler.Proofs.Jumps
import WorkflowCompiler.Proofs.Lowerable
import WorkflowCompiler.Proofs.Defaults
import WorkflowCompiler.Proofs.FailureHandler
import WorkflowCompiler.Proofs.Bindings
import WorkflowCompiler.Proofs.Validation
import WorkflowCompiler.Proofs.AcceptedSource
import WorkflowCompiler.Proofs.AtomicSave
import WorkflowCompiler.Proofs.FingerprintPlace
import WorkflowCompiler.Proofs.References
import WorkflowCompiler.Proofs.CandidateFiles
import WorkflowCompiler.Proofs.Insertion
import WorkflowCompiler.Proofs.Repetition
import WorkflowCompiler.Proofs.NewDirectories
import WorkflowCompiler.Proofs.NewProject
import WorkflowCompiler.Proofs.ReadOrder
import WorkflowCompiler.Proofs.PatternOrder
