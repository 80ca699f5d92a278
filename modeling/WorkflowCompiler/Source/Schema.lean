import WorkflowCompiler.Executable
import WorkflowCompiler.Json.Basic

/-!
The JSON Schema of source files. Members come in a fixed order: a description, a default, the type, then what the
type needs; properties come in the order of their names.
-/

namespace WorkflowCompiler.Source.Schema

/-- The members of a schema. -/
abbrev Members := List (String × Json)

def described (text : String) (members : Members) : Members := ("description", .str text) :: members

def withDefault (value : Json) (members : Members) : Members := ("default", value) :: members

def type (name : String) : Members := [("type", .str name)]

def text : Members := type "string"

/-- The type itself or nothing. -/
def orNull (name : String) : Members := [("type", .strings [name, "null"])]

def ref (name : String) : Members := [("$ref", .str ("#/definitions/" ++ name))]

def anyOf (choices : List Members) : Members := [("anyOf", .arr (choices.map .obj))]

def refOrNull (name : String) : Members := anyOf [ref name, type "null"]

def listOf (items : Members) : Members := type "array" ++ [("items", .obj items)]

def mapOf (values : Members) : Members := type "object" ++ [("additionalProperties", .obj values)]

def record (required : List String) (properties : List (String × Members)) : Members :=
  type "object" ++ [("required", .strings required),
    ("properties", .obj (properties.map fun p => (p.1, .obj p.2)))]

/-- No other properties are allowed. -/
def closed (members : Members) : Members := members ++ [("additionalProperties", .bool false)]

def optionalList (items : Members) : Members := withDefault (.arr []) (listOf items)

def action : Members :=
  described "What an operation runs." (anyOf [
    record ["script"] [("script", text)],
    record ["class_name", "method_name"] [("class_name", text), ("method_name", text)]])

def argument : Members :=
  described "Input binding passed by a step to the callable it invokes." (record ["name"] [
    ("name", text),
    ("value",
      described "Expression; `None` binds the context variable of the same name" (orNull "string"))])

def flow : Members :=
  closed (record ["name", "workflow"] [
    ("inputs", optionalList (ref "Input")),
    ("name", text),
    ("on_failure", described "Step run when a regular step fails" (refOrNull "StepDef")),
    ("outputs", optionalList (ref "Output")),
    ("results", withDefault (.strings [success, failure]) (listOf text)),
    ("workflow", listOf (ref "StepDef"))])

def input : Members :=
  described "Declared input of a flow or operation." (record ["name"] [
    ("default",
      described "Default expression, used when the caller provides nothing" (orNull "string")),
    ("name", text),
    ("private", described "Private inputs cannot be overridden by callers"
      (withDefault (.bool false) (type "boolean"))),
    ("required", withDefault (.bool true) (type "boolean"))])

def loop : Members :=
  described "Sequential loop: the step is re-entered once per element of `expression`."
    (record ["for", "in"] [
      ("break", described "Results that end the iteration early"
        (withDefault (.strings [failure]) (listOf text))),
      ("for", text),
      ("in", text)])

def operation : Members :=
  closed (record ["action", "name"] [
    ("action", ref "Action"),
    ("inputs", optionalList (ref "Input")),
    ("name", text),
    ("outputs", optionalList (ref "Output")),
    ("results",
      withDefault (.arr ([success, failure].map fun r => .obj [("name", .str r)]))
        (listOf (ref "ResultDef")))])

def output : Members :=
  described "Named output expression (publish, aggregate, or executable output)."
    (record ["name", "value"] [("name", text), ("value", text)])

def parallelLoop : Members :=
  described "Parallel loop: every element of `expression` becomes an independent branch."
    (record ["for", "in"] [("for", text), ("in", text)])

def result : Members :=
  described "Declared result of an operation, optionally guarded by a condition expression."
    (record ["name"] [("condition", orNull "string"), ("name", text)])

def step : Members :=
  closed (record ["do", "name"] [
    ("aggregate", optionalList (ref "Output")),
    ("async", described "Defaults to whether the step has a `parallel_loop`" (orNull "boolean")),
    ("do", described "Callable to invoke: `alias.name`, `name`, or `namespace.name`" text),
    ("inputs", optionalList (ref "Argument")),
    ("loop", refOrNull "LoopStatement"),
    ("name", text),
    ("navigate", described "Result → step name or flow result"
      (withDefault (.obj []) (mapOf text))),
    ("parallel_loop", refOrNull "ParallelLoopStatement"),
    ("publish", optionalList (ref "Output"))])

def definitions : List (String × Members) := [
  ("Action", action), ("Argument", argument), ("FlowDef", flow), ("Input", input),
  ("LoopStatement", loop), ("OperationDef", operation), ("Output", output),
  ("ParallelLoopStatement", parallelLoop), ("ResultDef", result), ("StepDef", step)]

def document : Json :=
  .obj ([("$schema", .str "http://json-schema.org/draft-07/schema#"), ("title", .str "SourceFile"),
    ("description", .str "Top-level YAML document.")] ++
    closed (record ["namespace"] [
      ("flow", refOrNull "FlowDef"),
      ("imports",
        described "Alias → namespace, usable as the first segment of a `do` reference" (mapOf text)),
      ("namespace", described "Dotted namespace every executable in this file lives in" text),
      ("operation", refOrNull "OperationDef")]) ++
    [("definitions", .obj (definitions.map fun d => (d.1, .obj d.2)))])

end WorkflowCompiler.Source.Schema
