import Mathlib.Data.List.Duplicate
import Mathlib.Data.List.Forall2
import Mathlib.Data.Option.Basic
import WorkflowCompiler.Proofs.Basic
import WorkflowCompiler.Proofs.Names
import WorkflowCompiler.Source.Validation

/-!
Which sources are accepted. Well-formedness is said without the checks: names follow the grammar of segments
and dots, and lists of names have no repetitions. The problems that are reported are the ways in which a source
fails to be well-formed, and a source without problems always has its executable, since the construction meets
no reference or name that the checks have not met before.
-/

namespace WorkflowCompiler

section Repetition

/-- The names that are still to be reported: those seen before that come again, and those that come twice in
what is left. -/
theorem mem_duplicatesFrom {seen reported : List String} (names : List String) (n : String)
    (hseen : ∀ m ∈ reported, m ∈ seen) :
    n ∈ duplicatesFrom seen reported names ↔
      n ∉ reported ∧ (n ∈ seen ∧ n ∈ names ∨ names.Duplicate n) := by
  -- Whatever is reported has been seen; this is what the two branches on a seen name keep.
  induction names generalizing seen reported with
  | nil => simp [duplicatesFrom]
  | cons m r ih =>
    have hin : r.Duplicate n → n ∈ r := List.Duplicate.mem
    simp only [duplicatesFrom, List.mem_cons, List.duplicate_cons_iff]
    split
    · rename_i hm
      split
      · rw [ih hseen]
        grind
      · rw [List.mem_cons, ih (List.forall_mem_cons.2 ⟨hm, hseen⟩)]
        grind
    · rw [ih fun k hk => List.mem_cons_of_mem _ (hseen k hk)]
      grind

theorem mem_duplicates (names : List String) (n : String) :
    n ∈ duplicates names ↔ names.Duplicate n := by
  rw [duplicates, mem_duplicatesFrom names n (by simp)]
  simp

end Repetition

section Problems

theorem mem_problemIf {bad : Bool} {p q : SourceProblem} :
    p ∈ problemIf bad q ↔ bad = true ∧ p = q := by
  cases bad <;> simp [problemIf]

/-- No name is empty and none comes twice. -/
structure ProperNames (names : List String) : Prop where
  nonempty : ∀ n ∈ names, n ≠ ""
  distinct : names.Nodup

inductive NameFault (kind : NameKind) (names : List String) : SourceProblem → Prop
  | empty (h : "" ∈ names) : NameFault kind names (.emptyName kind)
  | twice {n : String} (h : names.Duplicate n) : NameFault kind names (.duplicateName kind n)

theorem mem_nameProblems {kind : NameKind} {names : List String} {p : SourceProblem} :
    p ∈ nameProblems kind names ↔ NameFault kind names p := by
  simp only [nameProblems, List.mem_append, List.mem_map, List.mem_filter, decide_eq_true_eq,
    mem_duplicates]
  constructor
  · rintro (⟨n, ⟨hn, rfl⟩, rfl⟩ | ⟨n, hn, rfl⟩)
    · exact .empty hn
    · exact .twice hn
  · rintro (hn | hn)
    · exact .inl ⟨"", ⟨hn, rfl⟩, rfl⟩
    · exact .inr ⟨_, hn, rfl⟩

theorem properNames_iff (kind : NameKind) {names : List String} :
    ProperNames names ↔ ∀ p, ¬ NameFault kind names p := by
  constructor
  · rintro h p (hn | hn)
    · exact h.nonempty "" hn rfl
    · exact hn.not_nodup h.distinct
  · intro h
    refine ⟨?_, List.nodup_iff_forall_not_duplicate.2 fun n hn => h _ (.twice hn)⟩
    rintro n hn rfl
    exact h _ (.empty hn)

namespace OperationDecl

structure WellFormed (op : OperationDecl) : Prop where
  name : Segment op.name.toList
  inputs : ProperNames (op.inputs.map Input.name)
  outputs : ProperNames (op.outputs.map Output.name)
  results : ProperNames (op.results.map ResultDef.name)
  some_result : op.results ≠ []

inductive Fault (op : OperationDecl) : SourceProblem → Prop
  | name (h : ¬ Segment op.name.toList) : Fault op (.invalidOperationName op.name)
  | inputs {p : SourceProblem} (h : NameFault .input (op.inputs.map Input.name) p) : Fault op p
  | outputs {p : SourceProblem} (h : NameFault .output (op.outputs.map Output.name) p) : Fault op p
  | results {p : SourceProblem} (h : NameFault .result (op.results.map ResultDef.name) p) :
      Fault op p
  | noResult (h : op.results = []) : Fault op (.operationWithoutResults op.name)

theorem mem_operationProblems {op : OperationDecl} {p : SourceProblem} :
    p ∈ Source.operationProblems op ↔ op.Fault p := by
  simp only [Source.operationProblems, List.mem_append, mem_problemIf, mem_nameProblems,
    Bool.not_eq_true', ← Bool.not_eq_true, isSegment_iff, List.isEmpty_iff]
  constructor
  · rintro ((((⟨h, rfl⟩ | h) | h) | h) | ⟨h, rfl⟩)
    · exact .name h
    · exact .inputs h
    · exact .outputs h
    · exact .results h
    · exact .noResult h
  · rintro (h | h | h | h | h)
    · exact .inl (.inl (.inl (.inl ⟨h, rfl⟩)))
    · exact .inl (.inl (.inl (.inr h)))
    · exact .inl (.inl (.inr h))
    · exact .inl (.inr h)
    · exact .inr ⟨h, rfl⟩

theorem wellFormed_iff {op : OperationDecl} : op.WellFormed ↔ ∀ p, ¬ op.Fault p := by
  constructor
  · rintro h p (hp | hp | hp | hp | hp)
    · exact hp h.name
    · exact (properNames_iff _).1 h.inputs _ hp
    · exact (properNames_iff _).1 h.outputs _ hp
    · exact (properNames_iff _).1 h.results _ hp
    · exact h.some_result hp
  · intro h
    exact {
      name := not_not.1 fun hp => h _ (.name hp)
      inputs := (properNames_iff _).2 fun p hp => h p (.inputs hp)
      outputs := (properNames_iff _).2 fun p hp => h p (.outputs hp)
      results := (properNames_iff _).2 fun p hp => h p (.results hp)
      some_result := fun hp => h _ (.noResult hp) }

end OperationDecl

namespace Source

/-- The reference of a step is judged in the source that it stands in. -/
structure GoodStep (s : Source) (d : StepDecl) : Prop where
  name : d.name ≠ ""
  reference : ∃ q, s.expand d.reference = .ok q
  bound : (d.inputs.map Argument.name).Nodup

inductive StepFault (s : Source) (d : StepDecl) : SourceProblem → Prop
  | name (h : d.name = "") : StepFault s d .emptyStepName
  | reference {e : NameError} (h : s.expand d.reference = .error e) :
      StepFault s d (.badReference d.name e)
  | bound {n : String} (h : (d.inputs.map Argument.name).Duplicate n) :
      StepFault s d (.boundTwice d.name n)

theorem mem_referenceProblems {s : Source} {d : StepDecl} {p : SourceProblem} :
    p ∈ s.referenceProblems d ↔ ∃ e, s.expand d.reference = .error e ∧ p = .badReference d.name e := by
  unfold referenceProblems
  split
  · rename_i e he
    simp [he]
  · rename_i q hq
    simp [hq]

theorem mem_stepProblems {s : Source} {d : StepDecl} {p : SourceProblem} :
    p ∈ s.stepProblems d ↔ s.StepFault d p := by
  simp only [stepProblems, List.mem_append, mem_problemIf, mem_referenceProblems, List.mem_map,
    mem_duplicates, decide_eq_true_eq]
  constructor
  · rintro ((⟨h, rfl⟩ | ⟨e, h, rfl⟩) | ⟨n, h, rfl⟩)
    · exact .name h
    · exact .reference h
    · exact .bound h
  · rintro (h | h | h)
    · exact .inl (.inl ⟨h, rfl⟩)
    · exact .inl (.inr ⟨_, h, rfl⟩)
    · exact .inr ⟨_, h, rfl⟩

theorem goodStep_iff {s : Source} {d : StepDecl} : s.GoodStep d ↔ ∀ p, ¬ s.StepFault d p := by
  constructor
  · rintro h p (hp | hp | hp)
    · exact h.name hp
    · obtain ⟨q, hq⟩ := h.reference
      cases hq.symm.trans hp
    · exact hp.not_nodup h.bound
  · intro h
    refine ⟨fun hp => h _ (.name hp), ?_, ?_⟩
    · cases hq : s.expand d.reference with
      | error e => exact absurd (.reference hq) (h _)
      | ok q => exact ⟨q, rfl⟩
    · exact List.nodup_iff_forall_not_duplicate.2 fun n hn => h _ (.bound hn)

structure GoodFlow (s : Source) (f : FlowDecl) : Prop where
  name : Segment f.name.toList
  some_step : f.workflow ≠ []
  steps : ∀ d ∈ f.allSteps, s.GoodStep d
  step_names : (f.allSteps.map StepDecl.name).Nodup
  inputs : ProperNames (f.inputs.map Input.name)
  outputs : ProperNames (f.outputs.map Output.name)
  results : ProperNames f.results
  some_result : f.results ≠ []

inductive FlowFault (s : Source) (f : FlowDecl) : SourceProblem → Prop
  | name (h : ¬ Segment f.name.toList) : FlowFault s f (.invalidFlowName f.name)
  | noStep (h : f.workflow = []) : FlowFault s f (.noSteps f.name)
  | step {d : StepDecl} {p : SourceProblem} (hd : d ∈ f.allSteps) (h : s.StepFault d p) :
      FlowFault s f p
  | stepTwice {n : String} (h : (f.allSteps.map StepDecl.name).Duplicate n) :
      FlowFault s f (.duplicateStep n)
  | inputs {p : SourceProblem} (h : NameFault .input (f.inputs.map Input.name) p) : FlowFault s f p
  | outputs {p : SourceProblem} (h : NameFault .output (f.outputs.map Output.name) p) :
      FlowFault s f p
  | results {p : SourceProblem} (h : NameFault .result f.results p) : FlowFault s f p
  | noResult (h : f.results = []) : FlowFault s f (.flowWithoutResults f.name)

theorem mem_flowProblems {s : Source} {f : FlowDecl} {p : SourceProblem} :
    p ∈ s.flowProblems f ↔ s.FlowFault f p := by
  simp only [flowProblems, List.mem_append, mem_problemIf, mem_nameProblems, List.mem_flatMap,
    mem_stepProblems, List.mem_map, mem_duplicates, Bool.not_eq_true', ← Bool.not_eq_true,
    isSegment_iff, List.isEmpty_iff]
  constructor
  · rintro (((((((⟨h, rfl⟩ | ⟨h, rfl⟩) | ⟨d, hd, h⟩) | ⟨n, h, rfl⟩) | h) | h) | h) | ⟨h, rfl⟩)
    · exact .name h
    · exact .noStep h
    · exact .step hd h
    · exact .stepTwice h
    · exact .inputs h
    · exact .outputs h
    · exact .results h
    · exact .noResult h
  · rintro (h | h | ⟨hd, h⟩ | h | h | h | h | h)
    · exact .inl (.inl (.inl (.inl (.inl (.inl (.inl ⟨h, rfl⟩))))))
    · exact .inl (.inl (.inl (.inl (.inl (.inl (.inr ⟨h, rfl⟩))))))
    · exact .inl (.inl (.inl (.inl (.inl (.inr ⟨_, hd, h⟩)))))
    · exact .inl (.inl (.inl (.inl (.inr ⟨_, h, rfl⟩))))
    · exact .inl (.inl (.inl (.inr h)))
    · exact .inl (.inl (.inr h))
    · exact .inl (.inr h)
    · exact .inr ⟨h, rfl⟩

theorem goodFlow_iff {s : Source} {f : FlowDecl} : s.GoodFlow f ↔ ∀ p, ¬ s.FlowFault f p := by
  constructor
  · rintro h p (hp | hp | ⟨hd, hp⟩ | hp | hp | hp | hp | hp)
    · exact hp h.name
    · exact h.some_step hp
    · exact goodStep_iff.1 (h.steps _ hd) _ hp
    · exact hp.not_nodup h.step_names
    · exact (properNames_iff _).1 h.inputs _ hp
    · exact (properNames_iff _).1 h.outputs _ hp
    · exact (properNames_iff _).1 h.results _ hp
    · exact h.some_result hp
  · intro h
    exact {
      name := not_not.1 fun hp => h _ (.name hp)
      some_step := fun hp => h _ (.noStep hp)
      steps := fun d hd => goodStep_iff.2 fun p hp => h p (.step hd hp)
      step_names := List.nodup_iff_forall_not_duplicate.2 fun n hn => h _ (.stepTwice hn)
      inputs := (properNames_iff _).2 fun p hp => h p (.inputs hp)
      outputs := (properNames_iff _).2 fun p hp => h p (.outputs hp)
      results := (properNames_iff _).2 fun p hp => h p (.results hp)
      some_result := fun hp => h _ (.noResult hp) }

/-- Exactly one executable is declared, and it is well-formed. -/
inductive GoodKind (s : Source) : Prop
  | flow {f : FlowDecl} (hf : s.flow = some f) (hnone : s.operation = none) (h : s.GoodFlow f)
  | operation {op : OperationDecl} (hnone : s.flow = none) (hop : s.operation = some op)
      (h : op.WellFormed)

inductive KindFault (s : Source) : SourceProblem → Prop
  | both {f : FlowDecl} {op : OperationDecl} (hf : s.flow = some f) (hop : s.operation = some op) :
      KindFault s .bothKinds
  | neither (hf : s.flow = none) (hop : s.operation = none) : KindFault s .neitherKind
  | flow {f : FlowDecl} {p : SourceProblem} (hf : s.flow = some f) (hnone : s.operation = none)
      (h : s.FlowFault f p) : KindFault s p
  | operation {op : OperationDecl} {p : SourceProblem} (hnone : s.flow = none)
      (hop : s.operation = some op) (h : op.Fault p) : KindFault s p

theorem mem_kindProblems {s : Source} {p : SourceProblem} :
    p ∈ s.kindProblems ↔ s.KindFault p := by
  constructor
  · intro h
    unfold kindProblems at h
    split at h
    · obtain rfl := List.mem_singleton.1 h
      exact .both ‹_› ‹_›
    · obtain rfl := List.mem_singleton.1 h
      exact .neither ‹_› ‹_›
    · exact .flow ‹_› ‹_› (mem_flowProblems.1 h)
    · exact .operation ‹_› ‹_› (OperationDecl.mem_operationProblems.1 h)
  · rintro (⟨hf, hop⟩ | ⟨hf, hop⟩ | ⟨hf, hop, h⟩ | ⟨hf, hop, h⟩)
    · simp [kindProblems, hf, hop]
    · simp [kindProblems, hf, hop]
    · simpa [kindProblems, hf, hop] using mem_flowProblems.2 h
    · simpa [kindProblems, hf, hop] using OperationDecl.mem_operationProblems.2 h

theorem goodKind_iff {s : Source} : s.GoodKind ↔ ∀ p, ¬ s.KindFault p := by
  constructor
  · rintro (⟨hf, hop, h⟩ | ⟨hf, hop, h⟩) p hp
    · cases hp with
      | both _ hop' => cases hop.symm.trans hop'
      | neither hf' _ => cases hf.symm.trans hf'
      | flow hf' _ hp =>
        obtain rfl := Option.some.inj (hf.symm.trans hf')
        exact goodFlow_iff.1 h _ hp
      | operation hf' _ _ => cases hf.symm.trans hf'
    · cases hp with
      | both hf' _ => cases hf.symm.trans hf'
      | neither _ hop' => cases hop.symm.trans hop'
      | flow hf' _ _ => cases hf.symm.trans hf'
      | operation _ hop' hp =>
        obtain rfl := Option.some.inj (hop.symm.trans hop')
        exact OperationDecl.wellFormed_iff.1 h _ hp
  · intro h
    cases hf : s.flow with
    | none =>
      cases hop : s.operation with
      | none => exact absurd (.neither hf hop) (h _)
      | some op =>
        exact .operation hf hop (OperationDecl.wellFormed_iff.2 fun p hp => h p (.operation hf hop hp))
    | some f =>
      cases hop : s.operation with
      | none => exact .flow hf hop (goodFlow_iff.2 fun p hp => h p (.flow hf hop hp))
      | some op => exact absurd (.both hf hop) (h _)

structure WellFormed (s : Source) : Prop where
  space : Dotted s.space.toList
  aliases : ∀ e ∈ s.imports.entries, Segment e.1.toList
  imports : ∀ e ∈ s.imports.entries, Dotted e.2.toList
  kind : s.GoodKind

/-- What there is to report about a source. -/
inductive Fault (s : Source) : SourceProblem → Prop
  | space (h : ¬ Dotted s.space.toList) : Fault s (.invalidNamespace s.space)
  | alias {e : String × String} (he : e ∈ s.imports.entries) (h : ¬ Segment e.1.toList) :
      Fault s (.invalidAlias e.1)
  | imported {e : String × String} (he : e ∈ s.imports.entries) (h : ¬ Dotted e.2.toList) :
      Fault s (.invalidImport e.1 e.2)
  | kind {p : SourceProblem} (h : s.KindFault p) : Fault s p

theorem mem_problems {s : Source} {p : SourceProblem} : p ∈ s.problems ↔ s.Fault p := by
  simp only [problems, importProblems, List.mem_append, List.mem_flatMap, mem_problemIf,
    mem_kindProblems, Bool.not_eq_true', ← Bool.not_eq_true, isSegment_iff, isDotted_iff]
  constructor
  · rintro ((⟨h, rfl⟩ | ⟨e, he, ⟨h, rfl⟩ | ⟨h, rfl⟩⟩) | h)
    · exact .space h
    · exact .alias he h
    · exact .imported he h
    · exact .kind h
  · rintro (h | ⟨he, h⟩ | ⟨he, h⟩ | h)
    · exact .inl (.inl ⟨h, rfl⟩)
    · exact .inl (.inr ⟨_, he, .inl ⟨h, rfl⟩⟩)
    · exact .inl (.inr ⟨_, he, .inr ⟨h, rfl⟩⟩)
    · exact .inr h

theorem wellFormed_iff {s : Source} : s.WellFormed ↔ ∀ p, ¬ s.Fault p := by
  constructor
  · rintro h p (hp | ⟨he, hp⟩ | ⟨he, hp⟩ | hp)
    · exact hp h.space
    · exact hp (h.aliases _ he)
    · exact hp (h.imports _ he)
    · exact goodKind_iff.1 h.kind _ hp
  · intro h
    exact {
      space := not_not.1 fun hp => h _ (.space hp)
      aliases := fun e he => not_not.1 fun hp => h _ (.alias he hp)
      imports := fun e he => not_not.1 fun hp => h _ (.imported he hp)
      kind := goodKind_iff.2 fun p hp => h p (.kind hp) }

theorem problems_eq_nil_iff {s : Source} : s.problems = [] ↔ s.WellFormed := by
  rw [List.eq_nil_iff_forall_not_mem, wellFormed_iff]
  simp only [mem_problems]

end Source

end Problems

namespace Source

/-- The step that a declaration stands for. -/
structure StepOf (s : Source) (d : StepDecl) (t : Step) : Prop where
  name : t.name = d.name
  reference : s.expand d.reference = .ok t.reference
  arguments : t.arguments = d.inputs
  loop : t.loop = d.loop
  parallelLoop : t.parallelLoop = d.parallelLoop
  publish : t.publish = d.publish
  aggregate : t.aggregate = d.aggregate
  navigation : t.navigation = d.navigate
  isAsync : t.isAsync = match d.isAsync with
    | some declared => declared
    | none => d.parallelLoop.isSome

structure FlowOf (s : Source) (f : FlowDecl) (g : Flow) : Prop where
  space : g.name.space = s.space
  name : g.name.name = f.name
  inputs : g.inputs = f.inputs
  outputs : g.outputs = f.outputs
  steps : List.Forall₂ s.StepOf f.workflow g.workflow.steps
  onFailure : Option.Rel s.StepOf f.onFailure g.workflow.onFailure
  results : g.workflow.results = f.results

structure OperationOf (s : Source) (op : OperationDecl) (o : Operation) : Prop where
  space : o.name.space = s.space
  name : o.name.name = op.name
  inputs : o.inputs = op.inputs
  outputs : o.outputs = op.outputs
  results : o.results = op.results
  action : o.action = op.action

inductive Declares (s : Source) : Executable → Prop
  | flow {f : FlowDecl} {g : Flow} (hf : s.flow = some f) (h : s.FlowOf f g) : Declares s (.flow g)
  | operation {op : OperationDecl} {o : Operation} (hop : s.operation = some op)
      (h : s.OperationOf op o) : Declares s (.operation o)

theorem stepOf_of_build {s : Source} {d : StepDecl} {t : Step} (h : s.buildStep d = .ok t) :
    s.StepOf d t := by
  obtain ⟨q, hq, h⟩ := bind_eq_ok.1 h
  obtain rfl := Except.ok.inj h
  refine ⟨rfl, hq, rfl, rfl, rfl, rfl, rfl, rfl, ?_⟩
  cases d.isAsync <;> rfl

theorem rel_of_buildHandler {s : Source} {o : Option StepDecl} {r : Option Step}
    (h : s.buildHandler o = .ok r) : Option.Rel s.StepOf o r := by
  cases o with
  | none =>
    obtain rfl := Except.ok.inj h
    exact .none
  | some d =>
    obtain ⟨t, ht, h⟩ := bind_eq_ok.1 h
    obtain rfl := Except.ok.inj h
    exact .some (stepOf_of_build ht)

theorem flowOf_of_build {s : Source} {f : FlowDecl} {e : Executable} (h : s.buildFlow f = .ok e) :
    ∃ g, s.FlowOf f g ∧ e = .flow g := by
  obtain ⟨q, hq, h⟩ := bind_eq_ok.1 h
  obtain ⟨steps, hsteps, h⟩ := bind_eq_ok.1 h
  obtain ⟨handler, hhandler, h⟩ := bind_eq_ok.1 h
  obtain ⟨hspace, hname⟩ := QualifiedName.parts_of_ofParts hq
  refine ⟨_, ⟨hspace, hname, rfl, rfl, ?_, ?_, rfl⟩, (Except.ok.inj h).symm⟩
  · have hmap : List.Forall₂ (fun d t => s.buildStep d = .ok t) f.workflow steps := by
      rw [← List.forall₂_map_right_iff, ← List.forall₂_map_left_iff, List.forall₂_eq_eq_eq]
      exact mapM_eq_ok.1 hsteps
    exact hmap.imp fun _ _ => stepOf_of_build
  · exact rel_of_buildHandler hhandler

theorem operationOf_of_build {s : Source} {op : OperationDecl} {e : Executable}
    (h : s.buildOperation op = .ok e) : ∃ o, s.OperationOf op o ∧ e = .operation o := by
  obtain ⟨q, hq, h⟩ := bind_eq_ok.1 h
  obtain ⟨hspace, hname⟩ := QualifiedName.parts_of_ofParts hq
  exact ⟨_, ⟨hspace, hname, rfl, rfl, rfl, rfl⟩, (Except.ok.inj h).symm⟩

/-- What the checks accept can be built. -/
theorem GoodStep.build {s : Source} {d : StepDecl} (h : s.GoodStep d) :
    ∃ t, s.buildStep d = .ok t := by
  obtain ⟨q, hq⟩ := h.reference
  exact ⟨_, bind_eq_ok.2 ⟨q, hq, rfl⟩⟩

theorem GoodFlow.build {s : Source} {f : FlowDecl} (h : s.GoodFlow f)
    (hspace : Dotted s.space.toList) : ∃ e, s.buildFlow f = .ok e := by
  obtain ⟨q, hq⟩ := QualifiedName.exists_ofParts hspace h.name
  obtain ⟨steps, hsteps⟩ : ∃ steps, f.workflow.mapM s.buildStep = .ok steps := by
    apply exists_mapM
    intro d hd
    exact (h.steps d (List.mem_append_left _ hd)).build
  obtain ⟨handler, hhandler⟩ : ∃ handler, s.buildHandler f.onFailure = .ok handler := by
    cases hf : f.onFailure with
    | none => exact ⟨none, rfl⟩
    | some d =>
      obtain ⟨t, ht⟩ := (h.steps d (by simp [FlowDecl.allSteps, hf])).build
      exact ⟨some t, bind_eq_ok.2 ⟨t, ht, rfl⟩⟩
  exact ⟨_, bind_eq_ok.2 ⟨q, hq, bind_eq_ok.2 ⟨steps, hsteps,
    bind_eq_ok.2 ⟨handler, hhandler, rfl⟩⟩⟩⟩

theorem build_operation {s : Source} {op : OperationDecl} (h : op.WellFormed)
    (hspace : Dotted s.space.toList) : ∃ e, s.buildOperation op = .ok e := by
  obtain ⟨q, hq⟩ := QualifiedName.exists_ofParts hspace h.name
  exact ⟨_, bind_eq_ok.2 ⟨q, hq, rfl⟩⟩

theorem declares_of_toExecutable {s : Source} {origin : String} {e : Executable}
    (h : s.toExecutable origin = .ok e) : s.Declares e := by
  unfold toExecutable at h
  split at h
  · split at h
    · rename_i f hf
      obtain ⟨g, hg, rfl⟩ := flowOf_of_build (mapError_eq_ok.1 h)
      exact .flow hf hg
    · rename_i op hnone hop
      obtain ⟨o, ho, rfl⟩ := operationOf_of_build (mapError_eq_ok.1 h)
      exact .operation hop ho
    · cases h
  · cases h

/-- The construction finds no fault with a well-formed source. -/
theorem WellFormed.toExecutable {s : Source} (h : s.WellFormed) (origin : String) :
    ∃ e, s.toExecutable origin = .ok e := by
  rw [Source.toExecutable, if_pos (List.isEmpty_iff.2 (problems_eq_nil_iff.2 h))]
  cases h.kind with
  | flow hf _ hgood =>
    obtain ⟨e, he⟩ := hgood.build h.space
    refine ⟨e, ?_⟩
    rw [hf]
    exact mapError_eq_ok.2 he
  | operation hnone hop hgood =>
    obtain ⟨e, he⟩ := build_operation hgood h.space
    refine ⟨e, ?_⟩
    rw [hnone, hop]
    exact mapError_eq_ok.2 he

theorem toExecutable_of_not_wellFormed {s : Source} (h : ¬ s.WellFormed) (origin : String) :
    s.toExecutable origin =
      .error (.invalidSource origin (s.problems.map SourceProblem.message)) := by
  have hne : ¬ s.problems.isEmpty = true := by
    rw [List.isEmpty_iff, problems_eq_nil_iff]
    exact h
  rw [toExecutable, if_neg hne]

/-- A source is accepted exactly if it is well-formed, and then the executable is what it declares. Otherwise all
its faults are reported, and nothing else is. -/
theorem toExecutable_outcome (s : Source) (origin : String) :
    ((∃ e, s.toExecutable origin = .ok e) ↔ s.WellFormed) ∧
      (∀ e, s.toExecutable origin = .ok e → s.Declares e) ∧
      (¬ s.WellFormed → s.problems ≠ [] ∧ s.toExecutable origin =
        .error (.invalidSource origin (s.problems.map SourceProblem.message))) ∧
      ∀ p, p ∈ s.problems ↔ s.Fault p := by
  refine ⟨⟨?_, fun h => h.toExecutable origin⟩, ?_, ?_, ?_⟩
  · rintro ⟨e, he⟩
    by_contra h
    cases he.symm.trans (toExecutable_of_not_wellFormed h origin)
  · intro e
    exact declares_of_toExecutable
  · intro h
    exact ⟨mt problems_eq_nil_iff.1 h, toExecutable_of_not_wellFormed h origin⟩
  · intro p
    exact mem_problems

end Source

def probeSource : Source where
  space := "app.jobs"
  imports := .ofList [("net", "lib.net")]
  flow := some {
    name := "probe"
    inputs := [⟨"hosts", none, true, false⟩]
    outputs := []
    results := [success, failure]
    workflow := [⟨"ping", "net.ping", [⟨"host", none⟩], none, some ⟨"host", "hosts"⟩, [], [],
      .empty, none⟩]
    onFailure := some ⟨"report", "report", [], none, none, [], [], .empty, some false⟩ }
  operation := none

/-- The namespace is reported where it is declared and again for the reference that it completes. -/
theorem probeSource_outcome :
    (∃ e, probeSource.toExecutable "probe" = .ok e ∧ probeSource.Declares e) ∧
      { probeSource with space := "app." }.toExecutable "probe" =
        .error (.invalidSource "probe"
          ["invalid namespace 'app.'", "step 'report': invalid namespace 'app.'"]) := by
  constructor
  · obtain ⟨haccepts, hdeclares, -⟩ := Source.toExecutable_outcome probeSource "probe"
    obtain ⟨e, he⟩ := haccepts.2 (Source.problems_eq_nil_iff.1 (by decide))
    exact ⟨e, he, hdeclares e he⟩
  · obtain ⟨-, -, hrejects, -⟩ :=
      Source.toExecutable_outcome { probeSource with space := "app." } "probe"
    have hbad : ¬ Source.WellFormed { probeSource with space := "app." } :=
      mt Source.problems_eq_nil_iff.2 (by decide)
    rw [(hrejects hbad).2]
    decide

end WorkflowCompiler
