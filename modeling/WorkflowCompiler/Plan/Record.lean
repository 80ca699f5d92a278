import WorkflowCompiler.Decode.Json
import WorkflowCompiler.Executable.Json
import WorkflowCompiler.Executable.Shape
import WorkflowCompiler.Plan

/-!
The form in which plans are stored and read back. Every field is written; a task carries its role, by which
its other fields are understood; instructions are stored under the text of their ids.
-/

namespace WorkflowCompiler

open Json (Decoded Setting)

def optionalJson {α : Type} (f : α → Json) : Option α → Json
  | some a => f a
  | none => .null

def Jump.toRecord (j : Jump) : Json :=
  .obj [("next_step_id", .int j.next), ("preset_result", optionalJson .str j.preset)]

def Navigation.toRecord (n : Navigation) : Json :=
  .obj (n.entries.map fun p => (p.1, p.2.toRecord))

def BranchOrder.text : BranchOrder → String
  | .iterationIndex => "iteration-index"

def BranchOrder.toJson (o : BranchOrder) : Json := .str o.text

/-- The fields of a task besides its role. -/
def Task.fields : Task → List (String × Json)
  | .flowBegin inputs next => [("inputs", inputsJson inputs), ("next_step_id", .int next)]
  | .invoke reference arguments loop publish navigation =>
    [("reference", reference.toJson), ("arguments", argumentsJson arguments),
      ("loop_statement", optionalJson Loop.toJson loop), ("publish", outputsJson publish),
      ("navigation", Navigation.toRecord navigation)]
  | .split loop branchPlan order next =>
    [("parallel_loop", loop.toJson), ("branch_plan", .str branchPlan), ("ordering", order.toJson),
      ("next_step_id", .int next)]
  | .branchBegin reference arguments next =>
    [("reference", reference.toJson), ("arguments", argumentsJson arguments),
      ("next_step_id", .int next)]
  | .branchEnd reference publish =>
    [("reference", reference.toJson), ("publish", outputsJson publish)]
  | .join aggregate order navigation =>
    [("aggregate", outputsJson aggregate), ("ordering", order.toJson),
      ("navigation", Navigation.toRecord navigation)]
  | .operationBegin inputs next => [("inputs", inputsJson inputs), ("next_step_id", .int next)]
  | .runAction action next => [("action", action.toJson), ("next_step_id", .int next)]
  | .operationEnd outputs results =>
    [("outputs", outputsJson outputs), ("results", resultsJson results)]
  | .bodyBegin reference next => [("reference", reference.toJson), ("next_step_id", .int next)]
  | .bodyEnd reference => [("reference", reference.toJson)]

def Task.toRecord (t : Task) : Json := .obj (("role", .str t.role) :: t.fields)

def Instruction.toRecord (i : Instruction) : Json :=
  .obj [("step_id", .int i.id), ("name", .str i.name), ("action", i.task.toRecord)]

def Plan.toRecord (p : Plan) : Json :=
  .obj [("plan_id", .str p.id), ("name", .str p.name), ("kind", .str p.kind.text),
    ("begin_step_id", .int p.start),
    ("steps", .obj (p.steps.entries.map fun e => (toString e.1, e.2.toRecord))),
    ("outputs", outputsJson p.outputs), ("results", .strings p.results)]

namespace Jump

structure Parts where
  next : Option StepId := none
  preset : Option (Option String) := none

def finish (p : Parts) : Except DecodeError Jump := do
  let next ← need "next_step_id" p.next
  return ⟨next, p.preset.getD none⟩

def shape : Shape Json Decoded Parts Jump where
  title := "struct ResultNavigation"
  fields := [
    .of "next_step_id" Parts.next (fun p a => { p with next := a }) Json.readInt false,
    .of "preset_result" Parts.preset (fun p a => { p with preset := some a })
      (Json.readOptional Json.readText) false]
  start := {}
  strict := false
  finish

end Jump

/-- All fields that some task has. A role uses those that its shape lists. -/
structure Task.Parts where
  inputs : Option (List Input) := none
  next : Option StepId := none
  reference : Option QualifiedName := none
  arguments : Option (List Argument) := none
  loop : Option (Option Loop) := none
  publish : Option (List Output) := none
  navigation : Option Navigation := none
  parallelLoop : Option ParallelLoop := none
  branchPlan : Option String := none
  order : Option BranchOrder := none
  aggregate : Option (List Output) := none
  action : Option Action := none
  outputs : Option (List Output) := none
  results : Option (List ResultDef) := none

namespace Task

def aside : Format Json Decoded := Json.format .setAside

abbrev PartField := Field Json Decoded Parts

def inputsField : PartField :=
  .of "inputs" Parts.inputs (fun p a => { p with inputs := a })
    (Json.readList (Input.read aside)) false

def nextField : PartField :=
  .of "next_step_id" Parts.next (fun p a => { p with next := a }) Json.readInt false

def referenceField : PartField :=
  .of "reference" Parts.reference (fun p a => { p with reference := a }) Json.readName false

def argumentsField : PartField :=
  .of "arguments" Parts.arguments (fun p a => { p with arguments := a })
    (Json.readList (Argument.read aside)) false

def loopField : PartField :=
  .of "loop_statement" Parts.loop (fun p a => { p with loop := some a })
    (Json.readOptional (Loop.read aside)) false

def publishField : PartField :=
  .of "publish" Parts.publish (fun p a => { p with publish := a })
    (Json.readList (Output.read aside)) false

def navigationField : PartField :=
  .of "navigation" Parts.navigation (fun p a => { p with navigation := a })
    (Json.readTable (Json.readRecord .setAside Jump.shape)) false

def parallelLoopField : PartField :=
  .of "parallel_loop" Parts.parallelLoop (fun p a => { p with parallelLoop := a })
    (ParallelLoop.read aside) false

def branchPlanField : PartField :=
  .of "branch_plan" Parts.branchPlan (fun p a => { p with branchPlan := a }) Json.readText false

def orderField : PartField :=
  .of "ordering" Parts.order (fun p a => { p with order := a })
    (Json.readChoice .setAside [(BranchOrder.iterationIndex.text, .iterationIndex)]) false

def aggregateField : PartField :=
  .of "aggregate" Parts.aggregate (fun p a => { p with aggregate := a })
    (Json.readList (Output.read aside)) false

def actionField : PartField :=
  .of "action" Parts.action (fun p a => { p with action := a }) (Action.read aside) false

def outputsField : PartField :=
  .of "outputs" Parts.outputs (fun p a => { p with outputs := a })
    (Json.readList (Output.read aside)) false

def resultsField : PartField :=
  .of "results" Parts.results (fun p a => { p with results := a })
    (Json.readList (ResultDef.read aside)) false

def shapeOf (variant : String) (fields : List PartField)
    (finish : Parts → Except DecodeError Task) : Shape Json Decoded Parts Task :=
  ⟨"struct variant StepAction::" ++ variant, fields, {}, false, finish⟩

def flowBeginShape := shapeOf "FlowBegin" [inputsField, nextField] fun p => do
  let inputs ← need "inputs" p.inputs
  let next ← need "next_step_id" p.next
  return .flowBegin inputs next

def invokeShape :=
  shapeOf "Invoke" [referenceField, argumentsField, loopField, publishField, navigationField]
    fun p => do
      let reference ← need "reference" p.reference
      let arguments ← need "arguments" p.arguments
      let publish ← need "publish" p.publish
      let navigation ← need "navigation" p.navigation
      return .invoke reference arguments (p.loop.getD none) publish navigation

def splitShape :=
  shapeOf "Split" [parallelLoopField, branchPlanField, orderField, nextField] fun p => do
    let loop ← need "parallel_loop" p.parallelLoop
    let branchPlan ← need "branch_plan" p.branchPlan
    let order ← need "ordering" p.order
    let next ← need "next_step_id" p.next
    return .split loop branchPlan order next

def branchBeginShape :=
  shapeOf "BranchBegin" [referenceField, argumentsField, nextField] fun p => do
    let reference ← need "reference" p.reference
    let arguments ← need "arguments" p.arguments
    let next ← need "next_step_id" p.next
    return .branchBegin reference arguments next

def branchEndShape := shapeOf "BranchEnd" [referenceField, publishField] fun p => do
  let reference ← need "reference" p.reference
  let publish ← need "publish" p.publish
  return .branchEnd reference publish

def joinShape := shapeOf "Join" [aggregateField, orderField, navigationField] fun p => do
  let aggregate ← need "aggregate" p.aggregate
  let order ← need "ordering" p.order
  let navigation ← need "navigation" p.navigation
  return .join aggregate order navigation

def operationBeginShape := shapeOf "OperationBegin" [inputsField, nextField] fun p => do
  let inputs ← need "inputs" p.inputs
  let next ← need "next_step_id" p.next
  return .operationBegin inputs next

def runActionShape := shapeOf "RunAction" [actionField, nextField] fun p => do
  let action ← need "action" p.action
  let next ← need "next_step_id" p.next
  return .runAction action next

def operationEndShape := shapeOf "OperationEnd" [outputsField, resultsField] fun p => do
  let outputs ← need "outputs" p.outputs
  let results ← need "results" p.results
  return .operationEnd outputs results

def bodyBeginShape := shapeOf "BranchBodyBegin" [referenceField, nextField] fun p => do
  let reference ← need "reference" p.reference
  let next ← need "next_step_id" p.next
  return .bodyBegin reference next

def bodyEndShape := shapeOf "BranchBodyEnd" [referenceField] fun p => do
  let reference ← need "reference" p.reference
  return .bodyEnd reference

/-- The shape of each role's fields. -/
def shapes : List (String × Shape Json Decoded Parts Task) := [
  ("flow-begin", flowBeginShape), ("invoke", invokeShape), ("split", splitShape),
  ("branch-begin", branchBeginShape), ("branch-end", branchEndShape), ("join", joinShape),
  ("operation-begin", operationBeginShape), ("run-action", runActionShape),
  ("operation-end", operationEndShape), ("branch-body-begin", bodyBeginShape),
  ("branch-body-end", bodyEndShape)]

def shapeOfRole : Json → Decoded (Shape Json Decoded Parts Task)
  | .str role =>
    match shapes.lookup role with
    | some s => .ok s
    | none => .error (.unknownVariant role (shapes.map Prod.fst))
  | j => j.wrong "variant identifier"

/-- The role is looked for first; the other fields are set aside until it is known. In a row the role comes
first. -/
def ofRecord : Json → Decoded Task
  | .obj members =>
    match members.lookup "role" with
    | some role => do
      let s ← shapeOfRole role
      Json.readRecord .setAside s (.obj (members.filter fun p => p.1 != "role"))
    | none => .error (.missingField "role")
  | .arr (role :: items) => do
    let s ← shapeOfRole role
    Json.readRecord .setAside s (.arr items)
  | .arr [] => .error (.missingField "role")
  | j => j.wrong "internally tagged enum StepAction"

end Task

namespace Instruction

structure Parts where
  id : Option StepId := none
  name : Option String := none
  task : Option Task := none

def finish (p : Parts) : Except DecodeError Instruction := do
  let id ← need "step_id" p.id
  let name ← need "name" p.name
  let task ← need "action" p.task
  return ⟨id, name, task⟩

def shape : Shape Json Decoded Parts Instruction where
  title := "struct ExecutionStep"
  fields := [
    .of "step_id" Parts.id (fun p a => { p with id := a }) Json.readInt false,
    .of "name" Parts.name (fun p a => { p with name := a }) Json.readText false,
    .of "action" Parts.task (fun p a => { p with task := a }) Task.ofRecord false]
  start := {}
  strict := false
  finish

def ofRecord : Json → Decoded Instruction := Json.readRecord .direct shape

end Instruction

def PlanKind.choices : List (String × PlanKind) :=
  [("flow", .flow), ("operation", .operation), ("branch", .branch)]

namespace Plan

structure Parts where
  id : Option String := none
  name : Option String := none
  kind : Option PlanKind := none
  start : Option StepId := none
  steps : Option (SortedMap StepId Instruction) := none
  outputs : Option (List Output) := none
  results : Option (List String) := none

def finish (p : Parts) : Except DecodeError Plan := do
  let id ← need "plan_id" p.id
  let name ← need "name" p.name
  let kind ← need "kind" p.kind
  let start ← need "begin_step_id" p.start
  let steps ← need "steps" p.steps
  let outputs ← need "outputs" p.outputs
  let results ← need "results" p.results
  return ⟨id, name, kind, start, steps, outputs, results⟩

/-- The key of each instruction is looked at before the instruction. -/
def stepsOfRecord : Json → Decoded (SortedMap StepId Instruction)
  | .obj members => do
    let entries ← members.mapM fun p => do
      let id ← Json.readNumberKey p.1
      let i ← Instruction.ofRecord p.2
      return (id, i)
    return SortedMap.ofList entries
  | j => j.wrong "a map"

def shape : Shape Json Decoded Parts Plan where
  title := "struct ExecutionPlan"
  fields := [
    .of "plan_id" Parts.id (fun p a => { p with id := a }) Json.readText false,
    .of "name" Parts.name (fun p a => { p with name := a }) Json.readText false,
    .of "kind" Parts.kind (fun p a => { p with kind := a })
      (Json.readChoice .direct PlanKind.choices) false,
    .of "begin_step_id" Parts.start (fun p a => { p with start := a }) Json.readInt false,
    .of "steps" Parts.steps (fun p a => { p with steps := a }) stepsOfRecord false,
    .of "outputs" Parts.outputs (fun p a => { p with outputs := a })
      (Json.readList (Output.read (Json.format .direct))) false,
    .of "results" Parts.results (fun p a => { p with results := a })
      (Json.readList Json.readText) false]
  start := {}
  strict := false
  finish

def ofRecord : Json → Decoded Plan := Json.readRecord .direct shape

end Plan

end WorkflowCompiler
