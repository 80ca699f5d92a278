import WorkflowCompiler.Source.Shape
import WorkflowCompiler.Source.Validation
import WorkflowCompiler.Yaml.Reading

/-!
Sources from their YAML text.
-/

namespace WorkflowCompiler

/-- Reads a source. `origin` names it in errors. -/
def Source.ofText (text origin : String) : Except CompileError Source :=
  (Yaml.readDocument (Source.read Yaml.Reading.format) text).mapError fun e =>
    .unreadableSource origin ("YAML parse error: " ++ e.message)

/-- Reads a source and gives the executable that it declares. -/
def Executable.ofText (text origin : String) : Except CompileError Executable := do
  let s ← Source.ofText text origin
  s.toExecutable origin

end WorkflowCompiler
