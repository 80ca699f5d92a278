import WorkflowCompiler.Closure
import WorkflowCompiler.Plan.Lowering

/-!
Artifacts: the plan of a root with all plans that it needs. Assembling checks that no plan comes twice and
that every plan that an instruction refers to is there.
-/

namespace WorkflowCompiler

structure Artifact where
  root : Plan
  dependencies : SortedMap String Plan
  deriving DecidableEq

namespace Artifact

/-- The plan with an id, the root's included. -/
def plan? (a : Artifact) (id : String) : Option Plan :=
  if a.root.id = id then some a.root else a.dependencies.get? id

/-- The root, then the others in the order of their keys. -/
def plans (a : Artifact) : List Plan := a.root :: a.dependencies.values

/-- Every instruction of every plan with what it refers to, in order. -/
def uses (a : Artifact) : List (Plan × Instruction × String) :=
  a.plans.flatMap fun p => p.instructions.flatMap fun i => i.references.map fun r => (p, i, r)

/-- Finds the first reference to a plan that is not there. -/
def checkClosure (a : Artifact) : Except CompileError Unit :=
  match a.uses.find? fun u => (a.plan? u.2.2).isNone with
  | some (p, i, reference) => .error (.incompleteClosure p.id i.id reference)
  | none => .ok ()

/-- Stores the plans under their ids, in turn. -/
def collect (rootId : String) : List Plan → SortedMap String Plan →
    Except CompileError (SortedMap String Plan)
  | [], plans => .ok plans
  | p :: r, plans =>
    if p.id = rootId ∨ (plans.get? p.id).isSome then .error (.duplicateDependency p.id)
    else collect rootId r (plans.insert p.id p)

def assemble (root : Plan) (dependencies : List Plan) : Except CompileError Artifact := do
  let plans ← collect root.id dependencies .empty
  let a : Artifact := ⟨root, plans⟩
  a.checkClosure
  return a

end Artifact

/-- Finds what the root needs, lowers all of it and assembles the plans. -/
def Catalog.compile (c : Catalog) (root : Executable) : Except CompileError Artifact := do
  let closure ← c.resolve root
  let rootPlan ← root.plan
  let plans ← closure.dependencies.mapM Executable.plan
  Artifact.assemble rootPlan (plans ++ closure.branchTargets.map Plan.ofBranch)

end WorkflowCompiler
