import WorkflowCompiler.OrderedMap
import WorkflowCompiler.QualifiedName

/-!
The executables a compilation works on. An operation runs one external action; a flow is an ordered
workflow of steps, each of which invokes another executable. Expressions are opaque texts.
-/

namespace WorkflowCompiler

def success : String := "SUCCESS"

def failure : String := "FAILURE"

structure Input where
  name : String
  /-- Expression used when the caller provides nothing. -/
  fallback : Option String
  required : Bool
  /-- Callers cannot override it. -/
  isPrivate : Bool
  deriving DecidableEq, Repr

/-- Binds an input of the invoked executable; without a value, to the variable of the same name. -/
structure Argument where
  name : String
  value : Option String
  deriving DecidableEq, Repr

structure Output where
  name : String
  value : String
  deriving DecidableEq, Repr

structure ResultDef where
  name : String
  condition : Option String
  deriving DecidableEq, Repr

/-- The step is entered once for each element, one after the other, until a result in `breakOn`. -/
structure Loop where
  item : String
  expression : String
  breakOn : List String
  deriving DecidableEq, Repr

/-- Each element becomes a branch of its own. -/
structure ParallelLoop where
  item : String
  expression : String
  deriving DecidableEq, Repr

inductive Action where
  | script (text : String)
  | native (className methodName : String)
  deriving DecidableEq, Repr

def Action.label : Action → String
  | .script _ => "script"
  | .native className methodName => "native " ++ className ++ "#" ++ methodName

structure Operation where
  name : QualifiedName
  inputs : List Input
  outputs : List Output
  results : List ResultDef
  action : Action
  deriving DecidableEq

structure Step where
  name : String
  reference : QualifiedName
  arguments : List Argument
  loop : Option Loop
  parallelLoop : Option ParallelLoop
  /-- Evaluated after each invocation. -/
  publish : List Output
  /-- Evaluated once over the outputs of all branches. -/
  aggregate : List Output
  /-- From results to step names or declared results. -/
  navigation : OrderedMap String String
  isAsync : Bool
  deriving DecidableEq

/-- How many instructions the step becomes. -/
def Step.width (s : Step) : Int := if s.parallelLoop.isSome then 4 else 1

structure Workflow where
  steps : List Step
  /-- Where regular steps go when they fail. -/
  onFailure : Option Step
  results : List String
  deriving DecidableEq

namespace Workflow

/-- The regular steps, then the failure handler. -/
def allSteps (w : Workflow) : List Step := w.steps ++ w.onFailure.toList

def declares (w : Workflow) (result : String) : Bool := w.results.contains result

end Workflow

structure Flow where
  name : QualifiedName
  inputs : List Input
  outputs : List Output
  workflow : Workflow
  deriving DecidableEq

inductive Executable where
  | operation (op : Operation)
  | flow (f : Flow)
  deriving DecidableEq

namespace Executable

def name : Executable → QualifiedName
  | .operation op => op.name
  | .flow f => f.name

def inputs : Executable → List Input
  | .operation op => op.inputs
  | .flow f => f.inputs

def outputs : Executable → List Output
  | .operation op => op.outputs
  | .flow f => f.outputs

def results : Executable → List String
  | .operation op => op.results.map ResultDef.name
  | .flow f => f.workflow.results

/-- The steps through which other executables are invoked. -/
def allSteps : Executable → List Step
  | .operation _ => []
  | .flow f => f.workflow.allSteps

def kind : Executable → String
  | .operation _ => "operation"
  | .flow _ => "flow"

end Executable

end WorkflowCompiler
