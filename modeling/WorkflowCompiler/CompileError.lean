/-!
Why a compilation fails, and the text by which each cause is reported.
-/

namespace WorkflowCompiler

/-- In which way the loop declarations of a step contradict each other. -/
inductive LoopProblem where
  | bothLoops
  | asyncWithoutParallel
  | parallelNotAsync
  | aggregateWithoutParallel
  | emptyBreak
  deriving DecidableEq, Repr

def LoopProblem.message : LoopProblem → String
  | .bothLoops => "declares both loop and parallel_loop"
  | .asyncWithoutParallel => "is marked async but has no parallel_loop"
  | .parallelNotAsync => "has a parallel_loop but is marked synchronous"
  | .aggregateWithoutParallel => "declares aggregate bindings without a parallel_loop"
  | .emptyBreak => "loop break results must not be empty"

inductive CompileError where
  | unresolvedReference (flow step reference : String)
  | unresolvedNavigation (flow step result target : String)
  | invalidLoop (flow step : String) (problem : LoopProblem)
  | incompleteClosure (plan : String) (stepId : Int) (reference : String)
  | duplicateDependency (name : String)
  | duplicateExecutable (name : String)
  | invalidSource (origin : String) (problems : List String)
  | unreadableSource (origin : String) (reason : String)
  deriving DecidableEq, Repr

namespace CompileError

/-- A name in quotation marks. -/
def mark (s : String) : String := "'" ++ s ++ "'"

def message : CompileError → String
  | .unresolvedReference flow step reference =>
    "step " ++ mark step ++ " in flow " ++ mark flow ++ " references unknown executable " ++
      mark reference
  | .unresolvedNavigation flow step result target =>
    "step " ++ mark step ++ " in flow " ++ mark flow ++ " navigates result " ++ mark result ++
      " to " ++ mark target ++ ", which is neither a step nor a declared result"
  | .invalidLoop flow step problem =>
    "step " ++ mark step ++ " in flow " ++ mark flow ++ " has an invalid loop configuration: " ++
      problem.message
  | .incompleteClosure plan stepId reference =>
    "plan " ++ mark plan ++ " step " ++ toString stepId ++ " references " ++ mark reference ++
      ", which has no compiled plan"
  | .duplicateDependency name =>
    "dependency plan " ++ mark name ++ " was produced more than once"
  | .duplicateExecutable name =>
    "executable " ++ mark name ++ " is defined by more than one source"
  | .invalidSource origin problems => origin ++ ": " ++ "; ".intercalate problems
  | .unreadableSource origin reason => origin ++ ": " ++ reason

end CompileError

end WorkflowCompiler
