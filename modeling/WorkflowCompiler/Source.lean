import WorkflowCompiler.Executable

/-!
What a source file declares, as it is written: one flow or operation in a namespace, with short names for the
namespaces that its steps refer to.
-/

namespace WorkflowCompiler

structure StepDecl where
  name : String
  reference : String
  inputs : List Argument
  loop : Option Loop
  parallelLoop : Option ParallelLoop
  publish : List Output
  aggregate : List Output
  navigate : OrderedMap String String
  /-- Without a declaration a step is asynchronous when it has a parallel loop. -/
  isAsync : Option Bool
  deriving DecidableEq

structure FlowDecl where
  name : String
  inputs : List Input
  outputs : List Output
  results : List String
  workflow : List StepDecl
  onFailure : Option StepDecl
  deriving DecidableEq

structure OperationDecl where
  name : String
  inputs : List Input
  outputs : List Output
  results : List ResultDef
  action : Action
  deriving DecidableEq

structure Source where
  space : String
  /-- From short names to namespaces. -/
  imports : OrderedMap String String
  flow : Option FlowDecl
  operation : Option OperationDecl
  deriving DecidableEq

/-- The steps of the workflow, then the failure handler. -/
def FlowDecl.allSteps (f : FlowDecl) : List StepDecl := f.workflow ++ f.onFailure.toList

namespace Source

/-- A name without a dot is in the source's own namespace. A short name before the first dot stands for its
namespace; any other dotted name is complete. -/
def expand (s : Source) (reference : String) : Except NameError QualifiedName :=
  match Text.cutFirst '.' reference.toList with
  | none => QualifiedName.ofParts s.space reference
  | some (head, rest) =>
    match s.imports.get? (String.ofList head) with
    | some space => QualifiedName.parse (space ++ "." ++ String.ofList rest)
    | none => QualifiedName.parse reference

end Source

end WorkflowCompiler
