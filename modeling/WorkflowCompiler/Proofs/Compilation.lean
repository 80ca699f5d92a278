import WorkflowCompiler.Proofs.Assembly
import WorkflowCompiler.Proofs.Closure
import WorkflowCompiler.Proofs.Lowering
import WorkflowCompiler.Proofs.Names

/-!
What a compilation gives. The instructions of a plan refer to what the steps of its executable refer to,
the search enters all of that, and written names never collide, so the plans that are assembled pass every
check. The artifact then holds the plans of all that the root reaches, and a compilation fails only where the
search or the lowering does.
-/

namespace WorkflowCompiler

/-- What a plan may refer to on behalf of a step: the executable, and the branch that invokes it. -/
def Step.Mentions (s : Step) (id : String) : Prop :=
  id = s.reference.text ∨ s.parallelLoop.isSome ∧ id = s.reference.branchKey

theorem Flow.mentions_of_block {s : Step} {id : StepId} {n : Navigation} {i : Instruction}
    {r : String} (hi : i ∈ block s id n) (hr : r ∈ i.references) : s.Mentions r := by
  unfold block at hi
  split at hi
  · obtain rfl := List.mem_singleton.1 hi
    exact .inl (List.mem_singleton.1 hr)
  · rename_i loop hl
    simp only [List.mem_cons, List.not_mem_nil, or_false] at hi
    rcases hi with rfl | rfl | rfl | rfl
    · exact .inr ⟨by simp [hl], List.mem_singleton.1 hr⟩
    · exact .inl (List.mem_singleton.1 hr)
    · exact .inl (List.mem_singleton.1 hr)
    · simp [Instruction.references] at hr

namespace Executable

theorem id_of_plan {e : Executable} {p : Plan} (h : e.plan = .ok p) : p.id = e.name.text := by
  cases e with
  | operation op =>
    obtain rfl := Except.ok.inj h
    rfl
  | flow f =>
    rw [(Flow.lowered_of_plan h).plan_eq]
    rfl

theorem keyed_of_plan {e : Executable} {p : Plan} (h : e.plan = .ok p) : p.Keyed := by
  cases e with
  | operation op =>
    obtain rfl := Except.ok.inj h
    exact Plan.keyed_of_entries op.entries_plan
  | flow f => exact Plan.keyed_of_entries (Flow.lowered_of_plan h).entries_eq

theorem map_id_of_plans {es : List Executable} {ps : List Plan}
    (h : es.map Executable.plan = ps.map .ok) :
    ps.map Plan.id = (es.map Executable.name).map QualifiedName.text := by
  induction es generalizing ps with
  | nil =>
    cases ps with
    | nil => rfl
    | cons p r => simp at h
  | cons e es ih =>
    cases ps with
    | nil => simp at h
    | cons p r =>
      rw [List.map_cons, List.map_cons, List.cons.injEq] at h
      rw [List.map_cons, List.map_cons, List.map_cons, ih h.2, id_of_plan h.1]

/-- Instructions refer to nothing but what the steps refer to. -/
theorem mentions_of_plan {e : Executable} {p : Plan} (h : e.plan = .ok p) {i : Instruction}
    {r : String} (hi : i ∈ p.instructions) (hr : r ∈ i.references) :
    ∃ s ∈ e.allSteps, s.Mentions r := by
  cases e with
  | operation op =>
    obtain rfl := Except.ok.inj h
    rw [Plan.instructions_of_entries op.entries_plan] at hi
    simp only [List.mem_cons, List.not_mem_nil, or_false] at hi
    rcases hi with rfl | rfl | rfl
    · simp [Instruction.references] at hr
    · simp [Instruction.references] at hr
    · simp [Instruction.references] at hr
  | flow f =>
    rw [Plan.instructions_of_entries (Flow.lowered_of_plan h).entries_eq, Flow.instructions] at hi
    rcases List.mem_cons.1 hi with rfl | hi
    · simp [Instruction.references] at hr
    · obtain ⟨t, ht, hi⟩ := List.mem_flatMap.1 hi
      refine ⟨t.step, ?_, Flow.mentions_of_block hi hr⟩
      rw [allSteps, ← Flow.map_step_sites]
      exact List.mem_map_of_mem ht

end Executable

theorem Plan.references_ofBranch {q : QualifiedName} {i : Instruction} {r : String}
    (hi : i ∈ (Plan.ofBranch q).instructions) (hr : r ∈ i.references) : r = q.text := by
  rw [Plan.instructions_of_entries (Plan.entries_ofBranch q)] at hi
  simp only [List.mem_cons, List.not_mem_nil, or_false] at hi
  rcases hi with rfl | rfl
  · exact List.mem_singleton.1 hr
  · exact List.mem_singleton.1 hr

/-- The plans of the dependencies of a closure, then the plans of its branches. -/
def Closure.others (k : Closure) (ps : List Plan) : List Plan :=
  ps ++ k.branchTargets.map Plan.ofBranch

/-- A closure together with the plans of all its executables. -/
structure Closure.Planned (c : Catalog) (root : Executable) (k : Closure) (p : Plan)
    (ps : List Plan) : Prop where
  isClosure : k.Exact c root
  root_plan : root.plan = .ok p
  plans : k.dependencies.map Executable.plan = ps.map .ok

namespace Closure.Planned

variable {c : Catalog} {root : Executable} {k : Closure} {p : Plan} {ps : List Plan}

theorem mem_plans (h : Planned c root k p ps) (q : Plan) :
    q ∈ ps ↔ ∃ e, c.Reachable root e ∧ e ≠ root ∧ e.plan = .ok q := by
  have hmem : q ∈ ps ↔ .ok q ∈ k.dependencies.map Executable.plan := by
    rw [h.plans]
    simp
  rw [hmem, List.mem_map]
  constructor
  · rintro ⟨e, he, hq⟩
    obtain ⟨hreach, hne⟩ := (h.isClosure.mem_dependencies e).1 he
    exact ⟨e, hreach, hne, hq⟩
  · rintro ⟨e, hreach, hne, hq⟩
    exact ⟨e, (h.isClosure.mem_dependencies e).2 ⟨hreach, hne⟩, hq⟩

theorem mem_others (h : Planned c root k p ps) (q : Plan) :
    q ∈ k.others ps ↔ (∃ e, c.Reachable root e ∧ e ≠ root ∧ e.plan = .ok q) ∨
      ∃ t, c.BranchTarget root t ∧ q = Plan.ofBranch t := by
  rw [others, List.mem_append, h.mem_plans, List.mem_map]
  simp only [h.isClosure.mem_targets, eq_comm]

/-- Whatever is reachable has been lowered. -/
theorem exists_plan (h : Planned c root k p ps) {e : Executable} (he : c.Reachable root e) :
    ∃ q ∈ p :: k.others ps, e.plan = .ok q := by
  by_cases hroot : e = root
  · exact ⟨p, by simp, by rw [hroot, h.root_plan]⟩
  · have hmem : e.plan ∈ k.dependencies.map Executable.plan :=
      List.mem_map_of_mem ((h.isClosure.mem_dependencies e).2 ⟨he, hroot⟩)
    rw [h.plans, List.mem_map] at hmem
    obtain ⟨q, hq, heq⟩ := hmem
    exact ⟨q, by simp [others, hq], heq.symm⟩

/-- No two plans of an assembly have the same id. -/
theorem nodup_ids (h : Planned c root k p ps) : (p.id :: (k.others ps).map Plan.id).Nodup := by
  have hsplit : p.id :: (k.others ps).map Plan.id =
      (root.name :: k.dependencies.map Executable.name).map QualifiedName.text ++
        k.branchTargets.map QualifiedName.branchKey := by
    rw [others, List.map_append, List.map_map, Executable.map_id_of_plans h.plans,
      Executable.id_of_plan h.root_plan]
    rfl
  rw [hsplit, List.nodup_append]
  refine ⟨?_, ?_, ?_⟩
  · rw [List.Nodup, List.pairwise_map]
    exact h.isClosure.nodup_names.imp fun hne heq => hne (QualifiedName.text_inj heq)
  · rw [List.Nodup, List.pairwise_map]
    exact h.isClosure.nodup_targets.imp fun hne heq => hne (QualifiedName.branchKey_inj heq)
  · intro x hx y hy hxy
    obtain ⟨q, -, rfl⟩ := List.mem_map.1 hx
    obtain ⟨t, -, rfl⟩ := List.mem_map.1 hy
    exact QualifiedName.branchKey_ne_text t q hxy.symm

/-- Every reference that a step can give rise to is the id of a plan of the assembly. -/
theorem exists_id (h : Planned c root k p ps) {e : Executable} {s : Step} {r : String}
    (he : c.Reachable root e) (hs : s ∈ e.allSteps) (hr : s.Mentions r) :
    ∃ q ∈ p :: k.others ps, q.id = r := by
  rcases hr with rfl | ⟨hp, rfl⟩
  · obtain ⟨d, hd⟩ := h.isClosure.meaning e s he hs
    obtain ⟨q, hq, hplan⟩ := h.exists_plan (.step he hs hd)
    refine ⟨q, hq, ?_⟩
    rw [Executable.id_of_plan hplan, Catalog.name_of_meaning? hd]
  · have hmem : Plan.ofBranch s.reference ∈ k.others ps :=
      (h.mem_others _).2 (.inr ⟨s.reference, ⟨e, s, he, hs, hp, rfl⟩, rfl⟩)
    exact ⟨_, List.mem_cons_of_mem _ hmem, rfl⟩

theorem closed (h : Planned c root k p ps) : (Artifact.of p (k.others ps)).Closed := by
  intro q hq i hi r hr
  rw [Artifact.mem_plans_of h.nodup_ids] at hq
  have hid : ∃ x ∈ p :: k.others ps, x.id = r := by
    rcases List.mem_cons.1 hq with rfl | hq
    · obtain ⟨s, hs, hm⟩ := Executable.mentions_of_plan h.root_plan hi hr
      exact h.exists_id .root hs hm
    · rcases (h.mem_others q).1 hq with ⟨e, he, -, hplan⟩ | ⟨t, ⟨e, s, he, hs, -, rfl⟩, rfl⟩
      · obtain ⟨s, hs, hm⟩ := Executable.mentions_of_plan hplan hi hr
        exact h.exists_id he hs hm
      · exact h.exists_id he hs (.inl (Plan.references_ofBranch hi hr))
  obtain ⟨x, hx, rfl⟩ := hid
  exact ⟨x, (Artifact.plan?_of h.nodup_ids _ x).2 ⟨hx, rfl⟩⟩

/-- The checks of the assembly never fail. -/
theorem assemble_eq (h : Planned c root k p ps) :
    Artifact.assemble p (k.others ps) = .ok (.of p (k.others ps)) :=
  Artifact.assemble_eq_ok.2 ⟨h.nodup_ids, h.closed, rfl⟩

end Closure.Planned

/-- Every instruction of every plan is stored under its own id. -/
def Artifact.Keyed (a : Artifact) : Prop := ∀ p ∈ a.plans, p.Keyed

namespace Catalog

variable {c : Catalog} {root : Executable}

theorem compile_eq_ok {a : Artifact} :
    c.compile root = .ok a ↔ ∃ k p ps, c.resolve root = .ok k ∧ k.Planned c root p ps ∧
      a = .of p (k.others ps) := by
  constructor
  · intro h
    obtain ⟨k, hk, h⟩ := bind_eq_ok.1 h
    obtain ⟨p, hp, h⟩ := bind_eq_ok.1 h
    obtain ⟨ps, hps, h⟩ := bind_eq_ok.1 h
    have hplanned : k.Planned c root p ps := ⟨exact_of_resolve hk, hp, mapM_eq_ok.1 hps⟩
    refine ⟨k, p, ps, hk, hplanned, ?_⟩
    exact (Except.ok.inj (hplanned.assemble_eq.symm.trans h)).symm
  · rintro ⟨k, p, ps, hk, hplanned, rfl⟩
    exact bind_eq_ok.2 ⟨k, hk, bind_eq_ok.2 ⟨p, hplanned.root_plan,
      bind_eq_ok.2 ⟨ps, mapM_eq_ok.2 hplanned.plans, hplanned.assemble_eq⟩⟩⟩

/-- An operation invokes nothing, so its plan is the whole artifact. -/
theorem compile_operation (c : Catalog) (op : Operation) :
    c.compile (.operation op) = .ok ⟨op.plan, .empty⟩ := by
  have hresolve : c.resolve (.operation op) = .ok ⟨.operation op, [], []⟩ := by
    rw [resolve, Closure.search]
    simp only [Executable.allSteps, Closure.visitSteps, List.append_nil]
    rw [Closure.search]
    rfl
  exact compile_eq_ok.2 ⟨_, op.plan, [], hresolve, ⟨exact_of_resolve hresolve, rfl, rfl⟩, rfl⟩

theorem keyed_of_compile {a : Artifact} (h : c.compile root = .ok a) : a.Keyed := by
  obtain ⟨k, p, ps, -, hplanned, rfl⟩ := compile_eq_ok.1 h
  intro q hq
  rw [Artifact.mem_plans_of hplanned.nodup_ids] at hq
  rcases List.mem_cons.1 hq with rfl | hq
  · exact Executable.keyed_of_plan hplanned.root_plan
  · rcases (hplanned.mem_others q).1 hq with ⟨e, -, -, hplan⟩ | ⟨t, -, rfl⟩
    · exact Executable.keyed_of_plan hplan
    · exact Plan.keyed_of_entries (Plan.entries_ofBranch t)

/-- Only the search and the lowering fail. -/
theorem compile_eq_error {err : CompileError} :
    c.compile root = .error err ↔ c.resolve root = .error err ∨
      ∃ k, c.resolve root = .ok k ∧ (root :: k.dependencies).mapM Executable.plan = .error err := by
  unfold compile
  rw [bind_eq_error]
  refine or_congr_right (exists_congr fun k => and_congr_right fun hk => ?_)
  rw [List.mapM_cons, bind_eq_error, bind_eq_error]
  refine or_congr_right (exists_congr fun p => and_congr_right fun hp => ?_)
  rw [bind_eq_error, bind_eq_error]
  refine or_congr_right (exists_congr fun ps => and_congr_right fun hps => ?_)
  have hplanned : k.Planned c root p ps := ⟨exact_of_resolve hk, hp, mapM_eq_ok.1 hps⟩
  rw [show ps ++ k.branchTargets.map Plan.ofBranch = k.others ps from rfl, hplanned.assemble_eq]
  simp [pure, Except.pure]

theorem compile_eq_ok_iff :
    (∃ a, c.compile root = .ok a) ↔
      ∃ k, c.resolve root = .ok k ∧ ∀ e ∈ root :: k.dependencies, ∃ p, e.plan = .ok p := by
  constructor
  · rintro ⟨a, h⟩
    obtain ⟨k, p, ps, hk, hplanned, -⟩ := compile_eq_ok.1 h
    refine ⟨k, hk, ?_⟩
    intro e he
    obtain ⟨q, -, hq⟩ := hplanned.exists_plan ((hplanned.isClosure.mem_all e).1 he)
    exact ⟨q, hq⟩
  · rintro ⟨k, hk, hall⟩
    cases h : c.compile root with
    | ok a => exact ⟨a, rfl⟩
    | error err =>
      rcases compile_eq_error.1 h with h | ⟨k', hk', h⟩
      · rw [hk] at h
        cases h
      · obtain rfl := Except.ok.inj (hk.symm.trans hk')
        obtain ⟨front, e, back, heq, -, he⟩ := mapM_eq_error.1 h
        obtain ⟨p, hp⟩ := hall e (by simp [heq])
        rw [hp] at he
        cases he

/-- Every error of a compilation names a reference that leads nowhere or is a fault of a flow. -/
theorem origin_of_error {err : CompileError} (h : c.compile root = .error err) :
    (∃ flow step reference, err = .unresolvedReference flow step reference) ∨
      ∃ f : Flow, f.Fault err := by
  rcases compile_eq_error.1 h with h | ⟨k, -, h⟩
  · obtain ⟨e, step, -, -, -, rfl⟩ := resolve_eq_error h
    exact .inl ⟨_, _, _, rfl⟩
  · obtain ⟨front, e, back, -, -, he⟩ := mapM_eq_error.1 h
    cases e with
    | operation op => cases he
    | flow f => exact .inr ⟨f, Flow.fault_of_plan he⟩

/-- A compilation never fails in the checks of the assembly. It fails with the error of the search, or else with
that of the first executable, root first, that cannot be lowered, and in no other case. -/
theorem compile_outcome (c : Catalog) (root : Executable) :
    (∀ id, c.compile root ≠ .error (.duplicateDependency id)) ∧
      (∀ plan step reference,
        c.compile root ≠ .error (.incompleteClosure plan step reference)) ∧
      (∀ err, c.compile root = .error err ↔ c.resolve root = .error err ∨
        ∃ k, c.resolve root = .ok k ∧ ∃ front e back,
          root :: k.dependencies = front ++ e :: back ∧
            (∀ d ∈ front, ∃ p, d.plan = .ok p) ∧ e.plan = .error err) ∧
      ((∃ a, c.compile root = .ok a) ↔
        ∃ k, c.resolve root = .ok k ∧ ∀ e ∈ root :: k.dependencies, ∃ p, e.plan = .ok p) := by
  refine ⟨?_, ?_, ?_, compile_eq_ok_iff⟩
  · intro id h
    rcases origin_of_error h with ⟨_, _, _, h⟩ | ⟨f, h⟩
    · cases h
    · cases h
  · intro plan step reference h
    rcases origin_of_error h with ⟨_, _, _, h⟩ | ⟨f, h⟩
    · cases h
    · cases h
  · intro err
    rw [compile_eq_error]
    simp only [mapM_eq_error]

/-- A compiled artifact holds the root's plan, under its name the plan of every other executable that the root
reaches, under its key the plan of every branch target, and nothing else; every reference of every
instruction is the id of a plan that is found. -/
theorem compile_exact {a : Artifact} (h : c.compile root = .ok a) :
    root.plan = .ok a.root ∧
      (∀ e, c.Reachable root e → ∃ p, e.plan = .ok p) ∧
      (∀ key p, a.dependencies.get? key = some p ↔
        (∃ e, c.Reachable root e ∧ e ≠ root ∧ e.plan = .ok p ∧ e.name.text = key) ∨
          ∃ t, c.BranchTarget root t ∧ p = Plan.ofBranch t ∧ t.branchKey = key) ∧
      ∀ p ∈ a.plans, ∀ i ∈ p.instructions, ∀ r ∈ i.references,
        ∃ q, a.plan? r = some q ∧ q.id = r := by
  obtain ⟨k, p, ps, -, hplanned, rfl⟩ := compile_eq_ok.1 h
  refine ⟨hplanned.root_plan, ?_, ?_, ?_⟩
  · intro e he
    obtain ⟨q, -, hq⟩ := hplanned.exists_plan he
    exact ⟨q, hq⟩
  · intro key q
    rw [Artifact.get?_of hplanned.nodup_ids, hplanned.mem_others]
    constructor
    · rintro ⟨⟨e, he, hne, hq⟩ | ⟨t, ht, rfl⟩, hkey⟩
      · exact .inl ⟨e, he, hne, hq, by rw [← hkey, Executable.id_of_plan hq]⟩
      · exact .inr ⟨t, ht, rfl, hkey⟩
    · rintro (⟨e, he, hne, hq, hkey⟩ | ⟨t, ht, rfl, hkey⟩)
      · exact ⟨.inl ⟨e, he, hne, hq⟩, by rw [← hkey, Executable.id_of_plan hq]⟩
      · exact ⟨.inr ⟨t, ht, rfl⟩, hkey⟩
  · intro q hq i hi r hr
    obtain ⟨x, hx⟩ := hplanned.closed q hq i hi r hr
    exact ⟨x, hx, ((Artifact.plan?_of hplanned.nodup_ids r x).1 hx).2⟩

end Catalog

/-- Polls in parallel and then calls itself. -/
def watchFlow : Flow where
  name := ⟨"ops", "watch", by decide, by decide⟩
  inputs := []
  outputs := []
  workflow :=
    { steps := [
        { name := "all", reference := ⟨"ops", "poll", by decide, by decide⟩, arguments := []
          loop := none, parallelLoop := some ⟨"x", "xs"⟩, publish := [], aggregate := []
          navigation := .empty, isAsync := true },
        { name := "again", reference := ⟨"ops", "watch", by decide, by decide⟩, arguments := []
          loop := none, parallelLoop := none, publish := [], aggregate := []
          navigation := .empty, isAsync := false }]
      onFailure := none
      results := ["SUCCESS", "FAILURE"] }

def pollOperation : Operation where
  name := ⟨"ops", "poll", by decide, by decide⟩
  inputs := []
  outputs := []
  results := []
  action := .script "poll"

def watchCatalog : Catalog := .ofDistinct [.operation pollOperation] (by decide)

theorem watchFlow_compile : ∃ a, watchCatalog.compile (.flow watchFlow) = .ok a ∧
    Flow.plan watchFlow = .ok a.root ∧
    a.dependencies.get? "ops.poll" = some pollOperation.plan ∧
    a.dependencies.get? "branch:ops.poll" = some (Plan.ofBranch pollOperation.name) := by
  have hclosure : watchCatalog.resolve (.flow watchFlow) =
      .ok ⟨.flow watchFlow, [.operation pollOperation], [pollOperation.name]⟩ := by cbv
  obtain ⟨a, ha⟩ : ∃ a, watchCatalog.compile (.flow watchFlow) = .ok a := by
    refine Catalog.compile_eq_ok_iff.2 ⟨_, hclosure, ?_⟩
    intro e he
    rcases List.mem_cons.1 he with rfl | he
    · exact ⟨_, rfl⟩
    · obtain rfl := List.mem_singleton.1 he
      exact ⟨_, rfl⟩
  obtain ⟨hroot, -, hget, -⟩ := Catalog.compile_exact ha
  have hpoll : watchCatalog.Reachable (.flow watchFlow) (.operation pollOperation) :=
    .step .root List.mem_cons_self rfl
  refine ⟨a, ha, hroot, ?_, ?_⟩
  · exact (hget _ _).2 (.inl ⟨_, hpoll, by decide, rfl, rfl⟩)
  · exact (hget _ _).2 (.inr ⟨_, ⟨_, _, .root, List.mem_cons_self, rfl, rfl⟩, rfl, rfl⟩)

end WorkflowCompiler
