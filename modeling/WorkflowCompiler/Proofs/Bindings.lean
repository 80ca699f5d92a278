import Mathlib.Data.List.Forall2
import WorkflowCompiler.Proofs.Layout
import WorkflowCompiler.Proofs.Names

/-!
A plan keeps all bindings of its flow. The steps can be read back from their blocks, all but their navigation: what an
instruction has no room for is what the check of the loops excludes. So flows with the same plan differ at most in
how they spell their navigation and in which step is the failure handler. Plans count as the same here whatever the
order in which an instruction lists its results.
-/

namespace WorkflowCompiler

/-- A task without its navigation. -/
def Task.bare : Task → Task
  | .invoke reference arguments loop publish _ => .invoke reference arguments loop publish .empty
  | .join aggregate order _ => .join aggregate order .empty
  | t => t

namespace Instruction

def bare (i : Instruction) : Instruction := { i with task := i.task.bare }

/-- The results with their jumps, in order. -/
def jumps (i : Instruction) : List (String × Jump) := (i.navigation?.getD .empty).entries

/-- The same instruction, but for the order of its results. -/
def Alike (i j : Instruction) : Prop := i.bare = j.bare ∧ i.jumps.Perm j.jumps

instance : DecidableRel Alike := fun _ _ => inferInstanceAs (Decidable (_ ∧ _))

end Instruction

/-- The same plan, but for the order of the results in its instructions. -/
structure Plan.Alike (p q : Plan) : Prop where
  id : p.id = q.id
  name : p.name = q.name
  kind : p.kind = q.kind
  start : p.start = q.start
  outputs : p.outputs = q.outputs
  results : p.results = q.results
  steps : List.Forall₂ (fun d e => d.1 = e.1 ∧ d.2.Alike e.2) p.steps.entries q.steps.entries

theorem Plan.Alike.refl (p : Plan) : p.Alike p :=
  ⟨rfl, rfl, rfl, rfl, rfl, rfl, List.forall₂_same.2 fun _ _ => ⟨rfl, rfl, .refl _⟩⟩

theorem Plan.Alike.map_bare {p q : Plan} (h : p.Alike q) :
    p.instructions.map Instruction.bare = q.instructions.map Instruction.bare := by
  have hbare : List.Forall₂ (· = ·) (p.steps.entries.map fun e => e.2.bare)
      (q.steps.entries.map fun e => e.2.bare) := by
    rw [List.forall₂_map_left_iff, List.forall₂_map_right_iff]
    exact h.steps.imp fun _ _ hd => hd.2.1
  rw [List.forall₂_eq_eq_eq] at hbare
  rw [instructions, instructions, SortedMap.values, SortedMap.values, List.map_map, List.map_map]
  exact hbare

/-- A step without its navigation. -/
def Step.bare (s : Step) : Step := { s with navigation := .empty }

/-- Checked loops: a step with a parallel loop is asynchronous and has no other loop, and any other step is not
asynchronous and aggregates nothing. -/
theorem Step.loops_of_checked {s : Step} (h : s.loopProblem? = none) :
    s.isAsync = s.parallelLoop.isSome ∧ (s.parallelLoop.isSome → s.loop = none) ∧
      (s.parallelLoop = none → s.aggregate = []) := by
  unfold loopProblem? at h
  split at h
  · cases h
  · rename_i hboth
    split at h
    · cases h
    · rename_i hasync
      split at h
      · cases h
      · rename_i hparallel
        split at h
        · cases h
        · rename_i haggregate
          cases hl : s.parallelLoop with
          | none => simp_all
          | some loop => simp_all

/-- The steps from whose blocks a list of instructions is made, without their navigation. -/
def readSteps : List Instruction → List Step
  | ⟨_, name, .invoke reference arguments loop publish _⟩ :: r =>
    ⟨name, reference, arguments, loop, none, publish, [], .empty, false⟩ :: readSteps r
  | ⟨_, name, .split parallelLoop _ _ _⟩ :: ⟨_, _, .branchBegin reference arguments _⟩ ::
      ⟨_, _, .branchEnd _ publish⟩ :: ⟨_, _, .join aggregate _ _⟩ :: r =>
    ⟨name, reference, arguments, none, some parallelLoop, publish, aggregate, .empty, true⟩ :: readSteps r
  | _ => []

theorem readSteps_block {s : Step} (h : s.loopProblem? = none) (id : StepId) (n : Navigation)
    (r : List Instruction) : readSteps (Flow.block s id n ++ r) = s.bare :: readSteps r := by
  obtain ⟨hasync, hloop, haggregate⟩ := s.loops_of_checked h
  unfold Flow.block
  cases hl : s.parallelLoop with
  | none =>
    simp [readSteps, Step.bare, hl, hasync, haggregate hl]
  | some loop =>
    simp [readSteps, Step.bare, hl, hasync, hloop (by simp [hl])]

namespace Flow

theorem map_bare_block (s : Step) (id : StepId) (n : Navigation) :
    (block s id n).map Instruction.bare = block s id .empty := by
  unfold block
  cases s.parallelLoop with
  | none => rfl
  | some loop => rfl

theorem readSteps_blocks (f : Flow) {ts : List Site} (h : ∀ t ∈ ts, t.step.loopProblem? = none) :
    readSteps ((ts.flatMap f.blockAt).map Instruction.bare) = (ts.map Site.step).map Step.bare := by
  induction ts with
  | nil => rfl
  | cons t r ih =>
    obtain ⟨ht, hr⟩ := List.forall_mem_cons.1 h
    rw [List.flatMap_cons, List.map_append, blockAt, map_bare_block, readSteps_block ht, ih hr]
    rfl

/-- What follows the begin instruction of a plan gives back the steps of its flow, even without navigation. -/
theorem Lowered.readSteps_eq {f : Flow} {p : Plan} (h : f.Lowered p) :
    readSteps (p.instructions.map Instruction.bare).tail = f.workflow.allSteps.map Step.bare := by
  have hchecked : ∀ t ∈ f.sites, t.step.loopProblem? = none := by
    intro t ht
    apply (checkSteps_eq_ok.1 h.checked).1
    rw [← map_step_sites]
    exact List.mem_map_of_mem ht
  rw [h.instructions_eq, instructions, List.map_cons, List.tail_cons, readSteps_blocks f hchecked,
    map_step_sites]

theorem Lowered.head?_instructions {f : Flow} {p : Plan} (h : f.Lowered p) :
    (p.instructions.map Instruction.bare).head? = some ⟨beginId, f.name.name, .flowBegin f.inputs 2⟩ := by
  rw [h.instructions_eq]
  rfl

/-- Flows with the same plan, whatever the order of the results in its instructions, have the same name, inputs, outputs
and results, and the same steps in the same order, navigation aside. -/
theorem bindings_of_plan {f g : Flow} {p q : Plan} (hf : f.plan = .ok p) (hg : g.plan = .ok q)
    (halike : p.Alike q) :
    f.name = g.name ∧ f.inputs = g.inputs ∧ f.outputs = g.outputs ∧
      f.workflow.results = g.workflow.results ∧
      f.workflow.allSteps.map Step.bare = g.workflow.allSteps.map Step.bare := by
  have hf := lowered_of_plan hf
  have hg := lowered_of_plan hg
  have hbare := halike.map_bare
  have hid := halike.id
  have houtputs := halike.outputs
  have hresults := halike.results
  rw [hf.plan_eq, hg.plan_eq] at hid houtputs hresults
  refine ⟨QualifiedName.text_inj hid, ?_, houtputs, hresults, ?_⟩
  · have hbegin := hf.head?_instructions
    rw [hbare, hg.head?_instructions] at hbegin
    simp only [Option.some.injEq, Instruction.mk.injEq, Task.flowBegin.injEq] at hbegin
    exact hbegin.2.2.1.symm
  · rw [← hf.readSteps_eq, hbare, hg.readSteps_eq]

end Flow

/-- The same flow with the defaults of its failure handler written out, the last one first. -/
def spelledFlow : Flow where
  name := retryFlow.name
  inputs := retryFlow.inputs
  outputs := retryFlow.outputs
  workflow :=
    { steps := retryFlow.workflow.steps
      onFailure := retryFlow.workflow.onFailure.map fun h =>
        { h with navigation := .ofList [("FAILURE", "FAILURE"), ("SUCCESS", "FAILURE")] }
      results := retryFlow.workflow.results }

/-- The navigation is what a plan does not give back. -/
theorem spelledFlow_bindings : ∃ p q, spelledFlow.plan = .ok p ∧ retryFlow.plan = .ok q ∧ p ≠ q ∧ p.Alike q ∧
    spelledFlow.workflow.allSteps ≠ retryFlow.workflow.allSteps ∧
    spelledFlow.workflow.allSteps.map Step.bare = retryFlow.workflow.allSteps.map Step.bare := by
  have hplans : ∃ p q, spelledFlow.plan = .ok p ∧ retryFlow.plan = .ok q ∧ p ≠ q ∧ p.Alike q :=
    ⟨_, _, rfl, rfl, by decide, ⟨rfl, rfl, rfl, rfl, rfl, rfl, by decide⟩⟩
  obtain ⟨p, q, hp, hq, hne, halike⟩ := hplans
  obtain ⟨-, -, -, -, hsteps⟩ := Flow.bindings_of_plan hp hq halike
  exact ⟨p, q, hp, hq, hne, halike, by decide, hsteps⟩

end WorkflowCompiler
