import WorkflowCompiler.CompileError
import WorkflowCompiler.Plan

/-!
Lowering executables to plans. An operation becomes begin, action and end. A flow becomes a begin
instruction and one block for each step, in declaration order with the failure handler last; a step with a
parallel loop takes four ids, any other step one. First the ids of all blocks are reserved under the names of the
steps. The blocks take their ids from that table, as do the targets of navigation, so that a step may go to a
later one.
-/

namespace WorkflowCompiler

def Operation.plan (op : Operation) : Plan where
  id := op.name.text
  name := op.name.name
  kind := .operation
  start := beginId
  steps := Plan.stepsOf
    [⟨1, op.name.name, .operationBegin op.inputs 2⟩,
      ⟨2, op.name.name, .runAction op.action 3⟩,
      ⟨3, op.name.name, .operationEnd op.outputs op.results⟩]
  outputs := op.outputs
  results := op.results.map ResultDef.name

/-- The plan that one branch of a parallel loop runs to invoke `target`. -/
def Plan.ofBranch (target : QualifiedName) : Plan where
  id := target.branchKey
  name := target.name
  kind := .branch
  start := beginId
  steps := Plan.stepsOf [⟨1, target.name, .bodyBegin target 2⟩, ⟨2, target.name, .bodyEnd target⟩]
  outputs := []
  results := [success, failure]

/-- The first contradiction among the loop declarations of a step. -/
def Step.loopProblem? (s : Step) : Option LoopProblem :=
  if s.loop.isSome ∧ s.parallelLoop.isSome then some .bothLoops
  else if s.isAsync ∧ s.parallelLoop.isNone then some .asyncWithoutParallel
  else if ¬ s.isAsync ∧ s.parallelLoop.isSome then some .parallelNotAsync
  else if s.aggregate ≠ [] ∧ s.parallelLoop.isNone then some .aggregateWithoutParallel
  else if s.loop.any fun l => l.breakOn.contains "" then some .emptyBreak
  else none

def Step.checkLoops (flow : QualifiedName) (s : Step) : Except CompileError Unit :=
  match s.loopProblem? with
  | some problem => .error (.invalidLoop flow.text s.name problem)
  | none => .ok ()

namespace Flow

/-- Each step's loops are checked, then that no earlier step has its name. -/
def checkSteps (flow : QualifiedName) (seen : List String) : List Step → Except CompileError Unit
  | [] => .ok ()
  | s :: r => do
    s.checkLoops flow
    if s.name ∈ seen then
      throw (.invalidSource flow.text ["duplicate step name '" ++ s.name ++ "'"])
    checkSteps flow (s.name :: seen) r

/-- The steps with the first ids of their blocks. -/
def placed (id : StepId) : List Step → List (StepId × Step)
  | [] => []
  | s :: r => (id, s) :: placed (id + s.width) r

/-- The first id of each step, by name. -/
def entryIds (f : Flow) : List (String × StepId) :=
  (placed 2 f.workflow.allSteps).map fun p => (p.2.name, p.1)

def entryId? (f : Flow) (name : String) : Option StepId := f.entryIds.lookup name

/-- The id that is reserved for a step; no instruction has the id of a name without a step. -/
def entryId (f : Flow) (name : String) : StepId := (f.entryId? name).getD terminalId

/-- Step names win over results. A failure goes to the failure handler, unless it comes from there. -/
def resolve? (f : Flow) (fromHandler : Bool) (target : String) : Option Jump :=
  match f.entryId? target with
  | some id => some (.toStep id)
  | none =>
    if f.workflow.declares target then
      match f.workflow.onFailure.bind fun h => f.entryId? h.name with
      | some id =>
        if target = failure ∧ !fromHandler then some (.toStep id) else some (.toEnd target)
      | none => some (.toEnd target)
    else none

def resolve (f : Flow) (s : Step) (fromHandler : Bool) (result target : String) :
    Except CompileError Jump :=
  match f.resolve? fromHandler target with
  | some jump => .ok jump
  | none => .error (.unresolvedNavigation f.name.text s.name result target)

/-- The declared results in order. -/
def declaredJumps (f : Flow) (s : Step) (fromHandler : Bool) :
    List (String × String) → Navigation → Except CompileError Navigation
  | [], navigation => .ok navigation
  | (result, target) :: r, navigation => do
    let jump ← f.resolve s fromHandler result target
    declaredJumps f s fromHandler r (navigation.insert result jump)

/-- Where success leads when nothing is declared: to the next regular step, from the last one to success, and
from the failure handler to failure. -/
def defaultSuccess (f : Flow) (s : Step) (next : Option StepId) (fromHandler : Bool) :
    Except CompileError Jump :=
  match next with
  | some id => .ok (.toStep id)
  | none => f.resolve s fromHandler success (if fromHandler then failure else success)

/-- The declared results, then success and failure unless they are declared. -/
def navigationOf (f : Flow) (s : Step) (next : Option StepId) (fromHandler : Bool) :
    Except CompileError Navigation := do
  let navigation ← f.declaredJumps s fromHandler s.navigation.entries .empty
  let navigation ←
    if navigation.contains success then pure navigation
    else do
      let jump ← f.defaultSuccess s next fromHandler
      pure (navigation.insert success jump)
  if navigation.contains failure then pure navigation
  else do
    let jump ← f.resolve s fromHandler failure failure
    pure (navigation.insert failure jump)

/-- The instructions of a step whose block starts at `id`. -/
def block (s : Step) (id : StepId) (navigation : Navigation) : List Instruction :=
  match s.parallelLoop with
  | none => [⟨id, s.name, .invoke s.reference s.arguments s.loop s.publish navigation⟩]
  | some loop =>
    [⟨id, s.name, .split loop s.reference.branchKey .iterationIndex (id + 1)⟩,
      ⟨id + 1, s.name, .branchBegin s.reference s.arguments (id + 2)⟩,
      ⟨id + 2, s.name, .branchEnd s.reference s.publish⟩,
      ⟨id + 3, s.name, .join s.aggregate .iterationIndex navigation⟩]

/-- The block of a step at the id that is reserved for it. A successor is the step whose block comes next. -/
def lowerStep (f : Flow) (s : Step) (hasSuccessor fromHandler : Bool) :
    Except CompileError (List Instruction) := do
  let id := f.entryId s.name
  let next := if hasSuccessor then some (id + s.width) else none
  let navigation ← f.navigationOf s next fromHandler
  return block s id navigation

/-- The blocks of the regular steps, of which all but the last have a successor. -/
def lowerRegular (f : Flow) : List Step → Except CompileError (List Instruction)
  | [] => .ok []
  | s :: r => do
    let is ← f.lowerStep s (!r.isEmpty) false
    let js ← lowerRegular f r
    return is ++ js

def lowerHandler (f : Flow) : Except CompileError (List Instruction) :=
  match f.workflow.onFailure with
  | none => .ok []
  | some h => f.lowerStep h false true

def plan (f : Flow) : Except CompileError Plan :=
  match f.workflow.steps with
  | [] => .error (.invalidSource f.name.text ["flow has no steps"])
  | first :: _ => do
    checkSteps f.name [] f.workflow.allSteps
    let is ← f.lowerRegular f.workflow.steps
    let js ← f.lowerHandler
    return {
      id := f.name.text
      name := f.name.name
      kind := .flow
      start := beginId
      steps := Plan.stepsOf
        (⟨beginId, f.name.name, .flowBegin f.inputs (f.entryId first.name)⟩ :: (is ++ js))
      outputs := f.outputs
      results := f.workflow.results }

end Flow

def Executable.plan : Executable → Except CompileError Plan
  | .operation op => .ok op.plan
  | .flow f => f.plan

end WorkflowCompiler
