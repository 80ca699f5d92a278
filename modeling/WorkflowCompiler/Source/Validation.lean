import WorkflowCompiler.CompileError
import WorkflowCompiler.Source

/-!
What can be wrong with a source by itself, and the executable that a source without problems declares. All
problems are reported, in a fixed order.
-/

namespace WorkflowCompiler

/-- The lists of names in which no name may be empty or come twice. -/
inductive NameKind where
  | input | output | result
  deriving DecidableEq, Repr

def NameKind.text : NameKind → String
  | .input => "input"
  | .output => "output"
  | .result => "result"

inductive SourceProblem where
  | invalidNamespace (space : String)
  | invalidAlias (name : String)
  | invalidImport (name space : String)
  | bothKinds
  | neitherKind
  | invalidFlowName (name : String)
  | invalidOperationName (name : String)
  | noSteps (flow : String)
  | emptyStepName
  | badReference (step : String) (error : NameError)
  | boundTwice (step input : String)
  | duplicateStep (name : String)
  | emptyName (kind : NameKind)
  | duplicateName (kind : NameKind) (name : String)
  | flowWithoutResults (name : String)
  | operationWithoutResults (name : String)
  deriving DecidableEq, Repr

def SourceProblem.message : SourceProblem → String
  | .invalidNamespace space => "invalid namespace '" ++ space ++ "'"
  | .invalidAlias name => "invalid import alias '" ++ name ++ "'"
  | .invalidImport name space => "import '" ++ name ++ "' names invalid namespace '" ++ space ++ "'"
  | .bothKinds => "source declares both a flow and an operation"
  | .neitherKind => "source declares neither a flow nor an operation"
  | .invalidFlowName name => "invalid flow name '" ++ name ++ "'"
  | .invalidOperationName name => "invalid operation name '" ++ name ++ "'"
  | .noSteps flow => "flow '" ++ flow ++ "' has no steps"
  | .emptyStepName => "step name must not be empty"
  | .badReference step error => "step '" ++ step ++ "': " ++ error.message
  | .boundTwice step input => "step '" ++ step ++ "' binds input '" ++ input ++ "' twice"
  | .duplicateStep name => "duplicate step name '" ++ name ++ "'"
  | .emptyName kind => kind.text ++ " name must not be empty"
  | .duplicateName kind name => "duplicate " ++ kind.text ++ " name '" ++ name ++ "'"
  | .flowWithoutResults name => "flow '" ++ name ++ "' declares no results"
  | .operationWithoutResults name => "operation '" ++ name ++ "' declares no results"

/-- The names that were seen before, each reported once. -/
def duplicatesFrom (seen reported : List String) : List String → List String
  | [] => []
  | n :: r =>
    if n ∈ seen then
      if n ∈ reported then duplicatesFrom seen reported r
      else n :: duplicatesFrom seen (n :: reported) r
    else duplicatesFrom (n :: seen) reported r

/-- The names that come more than once, in the order of their second occurrences. -/
def duplicates (names : List String) : List String := duplicatesFrom [] [] names

def problemIf (bad : Bool) (p : SourceProblem) : List SourceProblem := if bad then [p] else []

/-- First the empty names, then those that come twice. -/
def nameProblems (kind : NameKind) (names : List String) : List SourceProblem :=
  ((names.filter (· = "")).map fun _ => .emptyName kind) ++
    (duplicates names).map (.duplicateName kind)

namespace Source

def importProblems (s : Source) : List SourceProblem :=
  s.imports.entries.flatMap fun (name, space) =>
    problemIf (!isSegment name) (.invalidAlias name) ++
      problemIf (!isDotted space) (.invalidImport name space)

def referenceProblems (s : Source) (step : StepDecl) : List SourceProblem :=
  match s.expand step.reference with
  | .error e => [.badReference step.name e]
  | .ok _ => []

def stepProblems (s : Source) (step : StepDecl) : List SourceProblem :=
  problemIf (step.name = "") .emptyStepName ++ s.referenceProblems step ++
    (duplicates (step.inputs.map Argument.name)).map (.boundTwice step.name)

def flowProblems (s : Source) (f : FlowDecl) : List SourceProblem :=
  problemIf (!isSegment f.name) (.invalidFlowName f.name) ++
    problemIf f.workflow.isEmpty (.noSteps f.name) ++
    f.allSteps.flatMap s.stepProblems ++
    (duplicates (f.allSteps.map StepDecl.name)).map .duplicateStep ++
    nameProblems .input (f.inputs.map Input.name) ++
    nameProblems .output (f.outputs.map Output.name) ++
    nameProblems .result f.results ++
    problemIf f.results.isEmpty (.flowWithoutResults f.name)

def operationProblems (op : OperationDecl) : List SourceProblem :=
  problemIf (!isSegment op.name) (.invalidOperationName op.name) ++
    nameProblems .input (op.inputs.map Input.name) ++
    nameProblems .output (op.outputs.map Output.name) ++
    nameProblems .result (op.results.map ResultDef.name) ++
    problemIf op.results.isEmpty (.operationWithoutResults op.name)

def kindProblems (s : Source) : List SourceProblem :=
  match s.flow, s.operation with
  | some _, some _ => [.bothKinds]
  | none, none => [.neitherKind]
  | some f, none => s.flowProblems f
  | none, some op => operationProblems op

/-- Everything that is wrong with a source. -/
def problems (s : Source) : List SourceProblem :=
  problemIf (!isDotted s.space) (.invalidNamespace s.space) ++ s.importProblems ++ s.kindProblems

def buildStep (s : Source) (d : StepDecl) : Except NameError Step := do
  let reference ← s.expand d.reference
  return {
    name := d.name
    reference
    arguments := d.inputs
    loop := d.loop
    parallelLoop := d.parallelLoop
    publish := d.publish
    aggregate := d.aggregate
    navigation := d.navigate
    isAsync := d.isAsync.getD d.parallelLoop.isSome }

def buildHandler (s : Source) : Option StepDecl → Except NameError (Option Step)
  | some d => do
    let step ← s.buildStep d
    return some step
  | none => .ok none

def buildFlow (s : Source) (f : FlowDecl) : Except NameError Executable := do
  let name ← QualifiedName.ofParts s.space f.name
  let steps ← f.workflow.mapM s.buildStep
  let onFailure ← s.buildHandler f.onFailure
  return .flow ⟨name, f.inputs, f.outputs, ⟨steps, onFailure, f.results⟩⟩

def buildOperation (s : Source) (op : OperationDecl) : Except NameError Executable := do
  let name ← QualifiedName.ofParts s.space op.name
  return .operation ⟨name, op.inputs, op.outputs, op.results, op.action⟩

/-- The executable of a source without problems. `origin` names the source in errors. -/
def toExecutable (s : Source) (origin : String) : Except CompileError Executable :=
  if s.problems.isEmpty then
    match s.flow, s.operation with
    | some f, _ => (s.buildFlow f).mapError fun e => .invalidSource origin [e.message]
    | none, some op => (s.buildOperation op).mapError fun e => .invalidSource origin [e.message]
    | none, none => .error (.invalidSource origin [SourceProblem.neitherKind.message])
  else .error (.invalidSource origin (s.problems.map SourceProblem.message))

end Source

end WorkflowCompiler
