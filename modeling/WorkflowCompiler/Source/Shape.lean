import WorkflowCompiler.Executable.Shape
import WorkflowCompiler.Source

/-!
How sources are read from any format. The records of a source take no fields but those listed.
-/

namespace WorkflowCompiler

variable {ν : Type} {m : Type → Type} [Monad m]

namespace StepDecl

structure Parts where
  name : Option String := none
  reference : Option String := none
  inputs : Option (List Argument) := none
  loop : Option (Option Loop) := none
  parallelLoop : Option (Option ParallelLoop) := none
  publish : Option (List Output) := none
  aggregate : Option (List Output) := none
  navigate : Option (OrderedMap String String) := none
  isAsync : Option (Option Bool) := none

def finish (p : Parts) : Except DecodeError StepDecl := do
  let name ← need "name" p.name
  let reference ← need "do" p.reference
  return {
    name
    reference
    inputs := p.inputs.getD []
    loop := p.loop.getD none
    parallelLoop := p.parallelLoop.getD none
    publish := p.publish.getD []
    aggregate := p.aggregate.getD []
    navigate := p.navigate.getD .empty
    isAsync := p.isAsync.getD none }

def shape (F : Format ν m) : Shape ν m Parts StepDecl where
  title := "struct StepDef"
  fields := [
    .of "name" Parts.name (fun p a => { p with name := a }) F.text false,
    .of "do" Parts.reference (fun p a => { p with reference := a }) F.text false,
    .of "inputs" Parts.inputs (fun p a => { p with inputs := a }) (F.list (Argument.read F)) true,
    .of "loop" Parts.loop (fun p a => { p with loop := some a }) (F.optional (Loop.read F)) true,
    .of "parallel_loop" Parts.parallelLoop (fun p a => { p with parallelLoop := some a })
      (F.optional (ParallelLoop.read F)) true,
    .of "publish" Parts.publish (fun p a => { p with publish := a }) (F.list (Output.read F)) true,
    .of "aggregate" Parts.aggregate (fun p a => { p with aggregate := a })
      (F.list (Output.read F)) true,
    .of "navigate" Parts.navigate (fun p a => { p with navigate := a }) (F.table F.text) true,
    .of "async" Parts.isAsync (fun p a => { p with isAsync := some a }) (F.optional F.flag) true]
  start := {}
  strict := true
  finish

def read (F : Format ν m) : ν → m StepDecl := F.record (shape F)

end StepDecl

namespace FlowDecl

structure Parts where
  name : Option String := none
  inputs : Option (List Input) := none
  outputs : Option (List Output) := none
  results : Option (List String) := none
  workflow : Option (List StepDecl) := none
  onFailure : Option (Option StepDecl) := none

/-- A flow that declares no results has success and failure. -/
def finish (p : Parts) : Except DecodeError FlowDecl := do
  let name ← need "name" p.name
  let workflow ← need "workflow" p.workflow
  return {
    name
    inputs := p.inputs.getD []
    outputs := p.outputs.getD []
    results := p.results.getD [success, failure]
    workflow
    onFailure := p.onFailure.getD none }

def shape (F : Format ν m) : Shape ν m Parts FlowDecl where
  title := "struct FlowDef"
  fields := [
    .of "name" Parts.name (fun p a => { p with name := a }) F.text false,
    .of "inputs" Parts.inputs (fun p a => { p with inputs := a }) (F.list (Input.read F)) true,
    .of "outputs" Parts.outputs (fun p a => { p with outputs := a }) (F.list (Output.read F)) true,
    .of "results" Parts.results (fun p a => { p with results := a }) (F.list F.text) true,
    .of "workflow" Parts.workflow (fun p a => { p with workflow := a })
      (F.list (StepDecl.read F)) false,
    .of "on_failure" Parts.onFailure (fun p a => { p with onFailure := some a })
      (F.optional (StepDecl.read F)) true]
  start := {}
  strict := true
  finish

def read (F : Format ν m) : ν → m FlowDecl := F.record (shape F)

end FlowDecl

namespace OperationDecl

structure Parts where
  name : Option String := none
  inputs : Option (List Input) := none
  outputs : Option (List Output) := none
  results : Option (List ResultDef) := none
  action : Option Action := none

/-- An operation that declares no results has success and failure, without conditions. -/
def finish (p : Parts) : Except DecodeError OperationDecl := do
  let name ← need "name" p.name
  let action ← need "action" p.action
  return {
    name
    inputs := p.inputs.getD []
    outputs := p.outputs.getD []
    results := p.results.getD [⟨success, none⟩, ⟨failure, none⟩]
    action }

def shape (F : Format ν m) : Shape ν m Parts OperationDecl where
  title := "struct OperationDef"
  fields := [
    .of "name" Parts.name (fun p a => { p with name := a }) F.text false,
    .of "inputs" Parts.inputs (fun p a => { p with inputs := a }) (F.list (Input.read F)) true,
    .of "outputs" Parts.outputs (fun p a => { p with outputs := a }) (F.list (Output.read F)) true,
    .of "results" Parts.results (fun p a => { p with results := a })
      (F.list (ResultDef.read F)) true,
    .of "action" Parts.action (fun p a => { p with action := a }) (Action.read F) false]
  start := {}
  strict := true
  finish

def read (F : Format ν m) : ν → m OperationDecl := F.record (shape F)

end OperationDecl

namespace Source

structure Parts where
  space : Option String := none
  imports : Option (OrderedMap String String) := none
  flow : Option (Option FlowDecl) := none
  operation : Option (Option OperationDecl) := none

def finish (p : Parts) : Except DecodeError Source := do
  let space ← need "namespace" p.space
  return ⟨space, p.imports.getD .empty, p.flow.getD none, p.operation.getD none⟩

def shape (F : Format ν m) : Shape ν m Parts Source where
  title := "struct SourceFile"
  fields := [
    .of "namespace" Parts.space (fun p a => { p with space := a }) F.text false,
    .of "imports" Parts.imports (fun p a => { p with imports := a }) (F.table F.text) true,
    .of "flow" Parts.flow (fun p a => { p with flow := some a })
      (F.optional (FlowDecl.read F)) true,
    .of "operation" Parts.operation (fun p a => { p with operation := some a })
      (F.optional (OperationDecl.read F)) true]
  start := {}
  strict := true
  finish

def read (F : Format ν m) : ν → m Source := F.record (shape F)

end Source

end WorkflowCompiler
