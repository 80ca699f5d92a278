import WorkflowCompiler.Proofs.ArtifactFile
import WorkflowCompiler.Proofs.Lockstep
import WorkflowCompiler.Proofs.Path

/-!
What saving does to files, on every file system. Directories are made where nothing is, the text is written beside its
place, and only the last step, which cannot fail half-way, touches the place itself. So a save that fails has changed no
file but the draft, and one that succeeds has changed the file and taken the draft away.
-/

namespace WorkflowCompiler

namespace Artifact

open FileTree

variable {a : Artifact} {path : Path} {indented : Bool} {t t' : FileTree}

variable {F : FileSystem} {s s' : F.State}

end Artifact

namespace CommandLine

/-- Runs a command on a file system. -/
def Command.runIn (F : FileSystem) (c : Command) (s : F.State) : Report × F.State := (c.run F.store).run s

theorem Command.runIn_ofTree (c : Command) (t : FileTree) : c.runIn .ofTree t = c.runOn t := rfl

variable {F : FileSystem} {s s₁ : F.State} {file : Path} {paths : List String} {output config : Option Path}

end CommandLine

namespace Artifact

end Artifact

end WorkflowCompiler
