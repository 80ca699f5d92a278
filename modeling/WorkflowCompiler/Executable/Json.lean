import WorkflowCompiler.Executable
import WorkflowCompiler.Json.Basic

/-!
The JSON forms of the declarations inside executables. What is absent is left out.
-/

namespace WorkflowCompiler

def optionalMember (key : String) : Option String → List (String × Json)
  | some s => [(key, .str s)]
  | none => []

def Input.toJson (i : Input) : Json :=
  .obj ([("name", .str i.name)] ++ optionalMember "default" i.fallback ++
    [("required", .bool i.required), ("private", .bool i.isPrivate)])

def Argument.toJson (a : Argument) : Json :=
  .obj ([("name", .str a.name)] ++ optionalMember "value" a.value)

def Output.toJson (o : Output) : Json := .obj [("name", .str o.name), ("value", .str o.value)]

def ResultDef.toJson (r : ResultDef) : Json :=
  .obj ([("name", .str r.name)] ++ optionalMember "condition" r.condition)

def Loop.toJson (l : Loop) : Json :=
  .obj [("for", .str l.item), ("in", .str l.expression), ("break", .strings l.breakOn)]

def ParallelLoop.toJson (l : ParallelLoop) : Json :=
  .obj [("for", .str l.item), ("in", .str l.expression)]

def Action.toJson : Action → Json
  | .script text => .obj [("script", .str text)]
  | .native className methodName =>
    .obj [("class_name", .str className), ("method_name", .str methodName)]

def QualifiedName.toJson (q : QualifiedName) : Json := .str q.text

def inputsJson (is : List Input) : Json := .arr (is.map Input.toJson)

def argumentsJson (as : List Argument) : Json := .arr (as.map Argument.toJson)

def outputsJson (os : List Output) : Json := .arr (os.map Output.toJson)

def resultsJson (rs : List ResultDef) : Json := .arr (rs.map ResultDef.toJson)

end WorkflowCompiler
