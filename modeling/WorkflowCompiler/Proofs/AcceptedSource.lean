import WorkflowCompiler.Proofs.Lowerable
import WorkflowCompiler.Proofs.Validation

/-!
What an accepted source can still fail in. The checks of a source and the lowering both ask for steps and for names
of steps that are all different, the one of declarations and the other of the steps built from them. A flow that is
built has the names of its declaration, so what is left to the lowering is what no check of a source looks at:
loops that contradict each other and names that navigation does not find.
-/

namespace WorkflowCompiler

namespace Flow

/-- What lowering reports of a flow whose steps are there and have different names. -/
inductive LateFault (f : Flow) : CompileError → Prop where
  | loops {s : Step} {problem : LoopProblem} (hs : s ∈ f.workflow.allSteps)
      (h : s.loopProblem? = some problem) : LateFault f (.invalidLoop f.name.text s.name problem)
  | target {l : Lookup} (hl : l ∈ f.workflow.lookups) (h : ¬ f.workflow.Known l.target) :
      LateFault f (.unresolvedNavigation f.name.text l.step.name l.result l.target)

theorem lateFault_of_plan {f : Flow} {err : CompileError} (hne : f.workflow.steps ≠ [])
    (hnames : (f.workflow.allSteps.map Step.name).Nodup) (h : f.plan = .error err) :
    f.LateFault err := by
  cases plan_eq_error_iff.1 h with
  | noSteps hnil => exact absurd hnil hne
  | @step front back s _ _ hsplit _ hs =>
    cases hs with
    | loops hp => exact .loops (by simp [hsplit]) hp
    | repeatedName _ hname =>
      rw [hsplit, List.map_append, List.nodup_append] at hnames
      exact absurd rfl (hnames.2.2 s.name hname s.name (by simp))
  | target _ _ hsplit _ hl => exact .target (by simp [hsplit]) hl

end Flow

namespace Source

variable {s : Source}

theorem wellFormed_of_toExecutable {origin : String} {e : Executable}
    (h : s.toExecutable origin = .ok e) : s.WellFormed := by
  by_contra hbad
  cases h.symm.trans (toExecutable_of_not_wellFormed hbad origin)

namespace FlowOf

variable {f : FlowDecl} {g : Flow}

theorem allSteps (h : s.FlowOf f g) : List.Forall₂ s.StepOf f.allSteps g.workflow.allSteps := by
  have hhandler {o : Option StepDecl} {t : Option Step} (hrel : Option.Rel s.StepOf o t) :
      List.Forall₂ s.StepOf o.toList t.toList := by
    cases hrel with
    | none => exact .nil
    | some hstep => exact .cons hstep .nil
  exact List.rel_append h.steps (hhandler h.onFailure)

theorem map_name (h : s.FlowOf f g) :
    g.workflow.allSteps.map Step.name = f.allSteps.map StepDecl.name := by
  rw [← List.forall₂_eq_eq_eq, List.forall₂_map_left_iff, List.forall₂_map_right_iff]
  exact h.allSteps.flip.imp fun _ _ hstep => hstep.name

theorem steps_ne_nil (h : s.FlowOf f g) (hne : f.workflow ≠ []) : g.workflow.steps ≠ [] := by
  intro hnil
  have hsteps := h.steps
  rw [hnil, List.forall₂_nil_right_iff] at hsteps
  exact hne hsteps

end FlowOf

/-- The flow of an accepted source has steps, and their names are all different. -/
theorem distinct_steps_of_accepted {origin : String} {g : Flow}
    (h : s.toExecutable origin = .ok (.flow g)) :
    g.workflow.steps ≠ [] ∧ (g.workflow.allSteps.map Step.name).Nodup := by
  obtain ⟨f, hf, hflow⟩ : ∃ f, s.flow = some f ∧ s.FlowOf f g := by
    cases declares_of_toExecutable h with
    | flow hf hflow => exact ⟨_, hf, hflow⟩
  have hgood : s.GoodFlow f := by
    cases (wellFormed_of_toExecutable h).kind with
    | flow hf' _ hgood =>
      obtain rfl := Option.some.inj (hf.symm.trans hf')
      exact hgood
    | operation hnone _ _ => cases hf.symm.trans hnone
  exact ⟨hflow.steps_ne_nil hgood.some_step, hflow.map_name ▸ hgood.step_names⟩

/-- An accepted source is lowered, or its flow has loops that contradict each other or a target that is not known. The
lowering never finds the source itself invalid, and an operation is always lowered. -/
theorem plan_of_accepted {origin : String} {e : Executable} (h : s.toExecutable origin = .ok e) :
    ((∃ p, e.plan = .ok p) ∨
      ∃ g err, e = .flow g ∧ e.plan = .error err ∧ g.LateFault err) ∧
    (∀ place problems, e.plan ≠ .error (.invalidSource place problems)) ∧
    ∀ op, e = .operation op → ∃ p, e.plan = .ok p := by
  cases e with
  | operation op => exact ⟨.inl ⟨_, rfl⟩, nofun, fun _ _ => ⟨_, rfl⟩⟩
  | flow g =>
    obtain ⟨hne, hnames⟩ := distinct_steps_of_accepted h
    refine ⟨?_, ?_, nofun⟩
    · cases hplan : (Executable.flow g).plan with
      | ok p => exact .inl ⟨p, rfl⟩
      | error err => exact .inr ⟨g, err, rfl, rfl, Flow.lateFault_of_plan hne hnames hplan⟩
    · intro place problems hplan
      cases Flow.lateFault_of_plan hne hnames hplan

end Source

/-- A step that is said to be asynchronous without a parallel loop passes as a declaration. -/
def waitSource : Source where
  space := "app"
  imports := .empty
  flow := some {
    name := "wait"
    inputs := []
    outputs := []
    results := [success, failure]
    workflow := [⟨"sleep", "sleep", [], none, none, [], [], .empty, some true⟩]
    onFailure := none }
  operation := none

theorem waitSource_plan : ∃ e, waitSource.toExecutable "wait" = .ok e ∧
    e.plan = .error (.invalidLoop "app.wait" "sleep" .asyncWithoutParallel) ∧
    ∀ place problems, e.plan ≠ .error (.invalidSource place problems) := by
  have hflow : waitSource.toExecutable "wait" = .ok (.flow
      { name := ⟨"app", "wait", by decide, by decide⟩
        inputs := [], outputs := []
        workflow :=
          { steps := [⟨"sleep", ⟨"app", "sleep", by decide, by decide⟩, [], none, none, [], [], .empty, true⟩]
            onFailure := none, results := [success, failure] } }) := by with_unfolding_all rfl
  exact ⟨_, hflow, by with_unfolding_all rfl, (Source.plan_of_accepted hflow).2.1⟩

end WorkflowCompiler
