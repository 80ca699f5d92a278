import WorkflowCompiler.Executable.Json
import WorkflowCompiler.Source

/-!
The JSON form of sources. Absent declarations are left out, and so are empty imports.
-/

namespace WorkflowCompiler

def textsJson (m : OrderedMap String String) : Json :=
  .obj (m.entries.map fun e => (e.1, .str e.2))

def memberIfSome {α : Type} (key : String) (f : α → Json) : Option α → List (String × Json)
  | some a => [(key, f a)]
  | none => []

def StepDecl.toJson (d : StepDecl) : Json :=
  .obj ([("name", .str d.name), ("do", .str d.reference), ("inputs", argumentsJson d.inputs)] ++
    memberIfSome "loop" Loop.toJson d.loop ++
    memberIfSome "parallel_loop" ParallelLoop.toJson d.parallelLoop ++
    [("publish", outputsJson d.publish), ("aggregate", outputsJson d.aggregate),
      ("navigate", textsJson d.navigate)] ++
    memberIfSome "async" .bool d.isAsync)

def FlowDecl.toJson (f : FlowDecl) : Json :=
  .obj ([("name", .str f.name), ("inputs", inputsJson f.inputs),
      ("outputs", outputsJson f.outputs), ("results", .strings f.results),
      ("workflow", .arr (f.workflow.map StepDecl.toJson))] ++
    memberIfSome "on_failure" StepDecl.toJson f.onFailure)

def OperationDecl.toJson (op : OperationDecl) : Json :=
  .obj [("name", .str op.name), ("inputs", inputsJson op.inputs),
    ("outputs", outputsJson op.outputs), ("results", resultsJson op.results),
    ("action", op.action.toJson)]

def Source.toJson (s : Source) : Json :=
  .obj ([("namespace", .str s.space)] ++
    (if s.imports.entries.isEmpty then [] else [("imports", textsJson s.imports)]) ++
    memberIfSome "flow" FlowDecl.toJson s.flow ++
    memberIfSome "operation" OperationDecl.toJson s.operation)

end WorkflowCompiler
