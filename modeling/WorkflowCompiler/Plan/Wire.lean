import WorkflowCompiler.Executable.Json
import WorkflowCompiler.Plan.Record

/-!
The form of plans that a scheduler reads: each instruction as a flat record of keyed data. What an
instruction does not carry is left out, except the marks for split and parallel instructions.
-/

namespace WorkflowCompiler

def Jump.toWire (j : Jump) : Json :=
  .obj [("nextStepId", .int j.next), ("presetResult", optionalJson .str j.preset)]

def Navigation.toWire (n : Navigation) : Json := .obj (n.entries.map fun p => (p.1, p.2.toWire))

namespace Task

/-- The data of a task besides its role and the marks. -/
def wireData : Task → List (String × Json)
  | .flowBegin inputs next | .operationBegin inputs next =>
    [("inputs", inputsJson inputs), ("next-step-id", .int next)]
  | .invoke reference arguments loop publish navigation =>
    [("inputs", argumentsJson arguments), ("action-reference", reference.toJson)] ++
      (loop.toList.map fun l => ("loop-statement", l.toJson)) ++
      [("publish-bindings", outputsJson publish), ("navigation-map", Navigation.toWire navigation)]
  | .split loop branchPlan order next =>
    [("parallel-loop-statement", loop.toJson), ("branch-plan", .str branchPlan),
      ("branch-ordering", order.toJson), ("next-step-id", .int next)]
  | .branchBegin reference arguments next =>
    [("inputs", argumentsJson arguments), ("action-reference", reference.toJson),
      ("next-step-id", .int next)]
  | .branchEnd reference publish =>
    [("action-reference", reference.toJson), ("publish-bindings", outputsJson publish)]
  | .join aggregate order navigation =>
    [("aggregate-bindings", outputsJson aggregate), ("aggregation-context", .str "branches_context"),
      ("branch-ordering", order.toJson), ("result-policy", .str "all-success"),
      ("navigation-map", Navigation.toWire navigation)]
  | .runAction action next => [("action", action.toJson), ("next-step-id", .int next)]
  | .operationEnd outputs results =>
    [("outputs", outputsJson outputs), ("results", resultsJson results)]
  | .bodyBegin reference next =>
    [("action-reference", reference.toJson), ("next-step-id", .int next)]
  | .bodyEnd reference => [("action-reference", reference.toJson)]

end Task

namespace Instruction

def actionData (i : Instruction) : Json :=
  .obj (("role", .str i.task.role) :: i.task.wireData ++
    [("isSplitStep", .bool i.isSplit), ("isAsync", .bool i.isAsync)])

def toWire (i : Instruction) : Json :=
  .obj [("stepId", .int i.id), ("name", .str i.name), ("actionData", i.actionData)]

end Instruction

namespace Plan

/-- The instructions under the text of their ids. Of two instructions with one id the later one is kept, at the
place of the first. -/
def wireSteps (p : Plan) : List (String × Json) :=
  p.instructions.foldl (fun steps i => putEntry (toString i.id) i.toWire steps) []

def toWire (p : Plan) : Json :=
  .obj [("planId", .str p.id), ("name", .str p.name), ("kind", .str p.kind.text),
    ("beginStepId", .int p.start), ("outputs", outputsJson p.outputs),
    ("results", .strings p.results), ("steps", .obj p.wireSteps)]

end Plan

end WorkflowCompiler
