import WorkflowCompiler.Executable

/-!
Execution plans: numbered instructions for a scheduler. Instruction 0 does not exist; going there
completes the plan with a preset result.
-/

namespace WorkflowCompiler

abbrev StepId := Int

def terminalId : StepId := 0

def beginId : StepId := 1

/-- Where a result leads: to another instruction, or to the end of the plan with a result. -/
structure Jump where
  next : StepId
  preset : Option String
  deriving DecidableEq, Repr

namespace Jump

def toStep (id : StepId) : Jump := ⟨id, none⟩

def toEnd (result : String) : Jump := ⟨terminalId, some result⟩

def isTerminal (j : Jump) : Bool := j.next == terminalId

end Jump

abbrev Navigation := OrderedMap String Jump

/-- In which order the outputs of branches reach the aggregate bindings. -/
inductive BranchOrder where
  /-- By the position of the branch's element. -/
  | iterationIndex
  deriving DecidableEq, Repr

inductive Task where
  /-- Binds the inputs of a flow. -/
  | flowBegin (inputs : List Input) (next : StepId)
  /-- Invokes an executable, possibly in a loop. -/
  | invoke (reference : QualifiedName) (arguments : List Argument) (loop : Option Loop)
      (publish : List Output) (navigation : Navigation)
  /-- Starts one branch for each element. -/
  | split (loop : ParallelLoop) (branchPlan : String) (order : BranchOrder) (next : StepId)
  /-- Binds the arguments of a branch and invokes the executable. -/
  | branchBegin (reference : QualifiedName) (arguments : List Argument) (next : StepId)
  /-- Publishes the outputs of a branch. -/
  | branchEnd (reference : QualifiedName) (publish : List Output)
  /-- Waits for all branches, aggregates and goes on. -/
  | join (aggregate : List Output) (order : BranchOrder) (navigation : Navigation)
  /-- Binds the inputs of an operation. -/
  | operationBegin (inputs : List Input) (next : StepId)
  | runAction (action : Action) (next : StepId)
  /-- Binds the outputs of an operation and selects its result. -/
  | operationEnd (outputs : List Output) (results : List ResultDef)
  /-- Invokes the executable of a branch for one element. -/
  | bodyBegin (reference : QualifiedName) (next : StepId)
  | bodyEnd (reference : QualifiedName)
  deriving DecidableEq

def Task.role : Task → String
  | .flowBegin .. => "flow-begin"
  | .invoke .. => "invoke"
  | .split .. => "split"
  | .branchBegin .. => "branch-begin"
  | .branchEnd .. => "branch-end"
  | .join .. => "join"
  | .operationBegin .. => "operation-begin"
  | .runAction .. => "run-action"
  | .operationEnd .. => "operation-end"
  | .bodyBegin .. => "branch-body-begin"
  | .bodyEnd .. => "branch-body-end"

structure Instruction where
  id : StepId
  name : String
  task : Task
  deriving DecidableEq

namespace Instruction

def isSplit (i : Instruction) : Bool :=
  match i.task with
  | .split .. => true
  | _ => false

/-- Whether the instruction comes from a parallel loop. -/
def isAsync (i : Instruction) : Bool :=
  match i.task with
  | .split .. | .branchBegin .. | .branchEnd .. | .join .. => true
  | _ => false

def navigation? (i : Instruction) : Option Navigation :=
  match i.task with
  | .invoke _ _ _ _ navigation | .join _ _ navigation => some navigation
  | _ => none

/-- The ids to which control can pass, the end of the plan left out. -/
def successors (i : Instruction) : List StepId :=
  match i.task with
  | .flowBegin _ next | .split _ _ _ next | .branchBegin _ _ next | .operationBegin _ next
  | .runAction _ next | .bodyBegin _ next => [next]
  | .invoke _ _ _ _ navigation | .join _ _ navigation =>
    ((navigation.entries.map Prod.snd).filter fun j => !j.isTerminal).map Jump.next
  | .branchEnd .. | .operationEnd .. | .bodyEnd .. => []

/-- The ids of the plans that the instruction needs. -/
def references (i : Instruction) : List String :=
  match i.task with
  | .invoke reference .. | .branchBegin reference .. | .branchEnd reference ..
  | .bodyBegin reference .. | .bodyEnd reference => [reference.text]
  | .split _ branchPlan .. => [branchPlan]
  | .flowBegin .. | .join .. | .operationBegin .. | .runAction .. | .operationEnd .. => []

end Instruction

inductive PlanKind where
  | flow | operation | branch
  deriving DecidableEq, Repr

def PlanKind.text : PlanKind → String
  | .flow => "flow"
  | .operation => "operation"
  | .branch => "branch"

structure Plan where
  /-- The qualified name of the executable, or the key of a branch. -/
  id : String
  name : String
  kind : PlanKind
  start : StepId
  steps : SortedMap StepId Instruction
  outputs : List Output
  results : List String
  deriving DecidableEq

namespace Plan

def step? (p : Plan) (id : StepId) : Option Instruction := p.steps.get? id

def instructions (p : Plan) : List Instruction := p.steps.values

def size (p : Plan) : Nat := p.steps.size

/-- A plan of instructions, each stored under its own id. -/
def stepsOf (is : List Instruction) : SortedMap StepId Instruction :=
  SortedMap.ofList (is.map fun i => (i.id, i))

end Plan

end WorkflowCompiler
