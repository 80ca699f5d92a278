import Mathlib.Data.List.Basic
import WorkflowCompiler.Proofs.Layout

/-!
Which flows can be lowered, and what is reported of the others. Lowering checks the steps one after the other and
then looks up the names to which their results lead. It succeeds exactly when the flow has steps, no check fails and
all names are known; otherwise it reports the first fault in that order.
-/

namespace WorkflowCompiler

/-- A name that is looked up to answer a result of a step. -/
structure Lookup where
  step : Step
  result : String
  target : String

/-- What a step looks up: the targets of its declared results in order, then those of success and failure unless they
are declared. Without `onSuccess` nothing is looked up for success. -/
def Step.lookups (s : Step) (onSuccess : Option String) : List Lookup :=
  s.navigation.entries.map (fun e => ⟨s, e.1, e.2⟩) ++
    ((if success ∈ s.navigation.keys then [] else onSuccess.toList.map fun name => ⟨s, success, name⟩) ++
      if failure ∈ s.navigation.keys then [] else [⟨s, failure, failure⟩])

/-- No step has loops that contradict each other, and no name comes twice. -/
structure CheckedSteps (ss : List Step) : Prop where
  loops : ∀ s ∈ ss, s.loopProblem? = none
  names : (ss.map Step.name).Nodup

/-- What the check of a step reports when the steps before it have the given names. -/
inductive Step.Fault (flow : QualifiedName) (before : List String) (s : Step) : CompileError → Prop where
  | loops {problem : LoopProblem} (h : s.loopProblem? = some problem) :
      Fault flow before s (.invalidLoop flow.text s.name problem)
  | repeatedName (hloops : s.loopProblem? = none) (h : s.name ∈ before) :
      Fault flow before s (.invalidSource flow.text ["duplicate step name '" ++ s.name ++ "'"])

theorem Step.Fault.mono {flow : QualifiedName} {before before' : List String} {s : Step} {err : CompileError}
    (h : s.Fault flow before err) (hsub : ∀ name ∈ before, name ∈ before') : s.Fault flow before' err := by
  cases h with
  | loops hp => exact .loops hp
  | repeatedName hp hname => exact .repeatedName hp (hsub _ hname)

namespace Workflow

/-- Navigation can lead to steps and to declared results. -/
def Known (w : Workflow) (name : String) : Prop :=
  name ∈ w.allSteps.map Step.name ∨ name ∈ w.results

instance (w : Workflow) (name : String) : Decidable (w.Known name) :=
  inferInstanceAs (Decidable (_ ∨ _))

/-- What all steps look up, in order. Of the regular steps only the last looks success up, as the others go on to
the next one; the failure handler looks failure up in its place. -/
def lookups (w : Workflow) : List Lookup :=
  w.steps.dropLast.flatMap (·.lookups none) ++ w.steps.getLast?.toList.flatMap (·.lookups (some success)) ++
    w.onFailure.toList.flatMap (·.lookups (some failure))

theorem mem_allSteps {w : Workflow} {q : Place} {s : Step} (hs : w.stepAt? q = some s) :
    s ∈ w.allSteps := by
  cases q with
  | regular i => exact List.mem_append_left _ (List.mem_of_getElem? hs)
  | handler => exact List.mem_append_right _ (Option.mem_toList.2 hs)

/-- A name is found among the regular steps when one of them has it. -/
theorem placeOf?_regular {w : Workflow} {name : String} :
    (∃ i, w.placeOf? name = some (.regular i)) ↔ name ∈ w.steps.map Step.name := by
  unfold placeOf?
  cases hi : w.steps.findIdx? fun s => s.name == name with
  | some i =>
    obtain ⟨hlt, hname, -⟩ := List.findIdx?_eq_some_iff_getElem.1 hi
    have hmem := List.mem_map_of_mem (f := Step.name) (List.getElem_mem hlt)
    rw [beq_iff_eq.1 hname] at hmem
    exact ⟨fun _ => hmem, fun _ => ⟨i, rfl⟩⟩
  | none =>
    rw [List.findIdx?_eq_none_iff] at hi
    constructor
    · rintro ⟨i, h⟩
      dsimp only at h
      split at h <;> cases h
    · intro h
      obtain ⟨s, hs, rfl⟩ := List.mem_map.1 h
      simpa using hi s hs

theorem placeOf?_eq_none {w : Workflow} {name : String} :
    w.placeOf? name = none ↔ name ∉ w.allSteps.map Step.name := by
  constructor
  · intro h hmem
    rw [allSteps, List.map_append, List.mem_append] at hmem
    rcases hmem with hmem | hmem
    · obtain ⟨i, hi⟩ := placeOf?_regular.2 hmem
      rw [h] at hi
      cases hi
    · obtain ⟨s, hs, rfl⟩ := List.mem_map.1 hmem
      rw [Option.mem_toList] at hs
      unfold placeOf? at h
      split at h
      · cases h
      · simp [hs] at h
  · intro h
    cases hq : w.placeOf? name with
    | none => rfl
    | some q =>
      obtain ⟨s, hs, rfl⟩ := stepAt?_of_placeOf? hq
      exact absurd (List.mem_map_of_mem (mem_allSteps hs)) h

def firstUnknown? (w : Workflow) (ls : List Lookup) : Option Lookup :=
  ls.find? fun l => ¬ w.Known l.target

theorem firstUnknown?_eq_some {w : Workflow} {ls : List Lookup} {l : Lookup} :
    w.firstUnknown? ls = some l ↔ ∃ front back, ls = front ++ l :: back ∧
      (∀ k ∈ front, w.Known k.target) ∧ ¬ w.Known l.target := by
  rw [firstUnknown?, List.find?_eq_some_iff_append]
  constructor
  · rintro ⟨hl, front, back, rfl, hfront⟩
    exact ⟨front, back, rfl, by simpa using hfront, by simpa using hl⟩
  · rintro ⟨front, back, rfl, hfront, hl⟩
    exact ⟨by simpa using hl, front, back, rfl, by simpa using hfront⟩

theorem firstUnknown?_append (w : Workflow) (ls ms : List Lookup) :
    w.firstUnknown? (ls ++ ms) = (w.firstUnknown? ls).or (w.firstUnknown? ms) :=
  List.find?_append

end Workflow

namespace Flow

/-- What a flow needs to be lowered. -/
structure Lowerable (f : Flow) : Prop where
  nonempty : f.workflow.steps ≠ []
  checked : CheckedSteps f.workflow.allSteps
  declared : ∀ s ∈ f.workflow.allSteps, ∀ e ∈ s.navigation.entries, f.workflow.Known e.2
  lastSuccess : ∀ s ∈ f.workflow.steps.getLast?, success ∉ s.navigation.keys → f.workflow.Known success
  regularFailure : ∀ s ∈ f.workflow.steps, failure ∉ s.navigation.keys → f.workflow.Known failure
  handlerFailure : ∀ h ∈ f.workflow.onFailure,
    success ∉ h.navigation.keys ∨ failure ∉ h.navigation.keys → f.workflow.Known failure

def unresolved (f : Flow) (l : Lookup) : CompileError :=
  .unresolvedNavigation f.name.text l.step.name l.result l.target

/-- What is reported of a flow: that it has no steps, else the first step whose check fails, else the first name that
is not known. -/
inductive FirstFault (f : Flow) : CompileError → Prop where
  | noSteps (h : f.workflow.steps = []) :
      FirstFault f (.invalidSource f.name.text ["flow has no steps"])
  | step {front back : List Step} {s : Step} {err : CompileError} (hne : f.workflow.steps ≠ [])
      (hsplit : f.workflow.allSteps = front ++ s :: back) (hfront : CheckedSteps front)
      (hs : s.Fault f.name (front.map Step.name) err) : FirstFault f err
  | target {front back : List Lookup} {l : Lookup} (hne : f.workflow.steps ≠ [])
      (hchecked : CheckedSteps f.workflow.allSteps) (hsplit : f.workflow.lookups = front ++ l :: back)
      (hfront : ∀ k ∈ front, f.workflow.Known k.target) (hl : ¬ f.workflow.Known l.target) :
      FirstFault f (.unresolvedNavigation f.name.text l.step.name l.result l.target)

theorem entryId?_eq_none (f : Flow) (name : String) :
    f.entryId? name = none ↔ name ∉ f.workflow.allSteps.map Step.name := by
  rw [entryId?_eq, Option.map_eq_none_iff, Workflow.placeOf?_eq_none]

/-- A target is resolved exactly when it is known, from the failure handler as from any other step. -/
theorem resolve?_eq_none (f : Flow) (fromHandler : Bool) (target : String) :
    f.resolve? fromHandler target = none ↔ ¬ f.workflow.Known target := by
  have hname := entryId?_eq_none f target
  unfold resolve? Workflow.Known Workflow.declares
  cases hid : f.entryId? target with
  | some id =>
    have hmem : target ∈ f.workflow.allSteps.map Step.name := by
      by_contra h
      rw [hname.2 h] at hid
      cases hid
    simp only [hmem, true_or, not_true, reduceCtorEq]
  | none =>
    have hmem := hname.1 hid
    by_cases hd : target ∈ f.workflow.results
    · simp only [List.contains_iff_mem, hd, hmem, if_true, or_true, not_true, iff_false]
      split
      · split <;> simp
      · simp
    · simp [hd, hmem]

/-- A computation looks names up one after the other and fails at the first that is not known. -/
def Seeks {α : Type} (f : Flow) (ls : List Lookup) (x : Except CompileError α) : Prop :=
  ∀ err, x = .error err ↔ (f.workflow.firstUnknown? ls).map f.unresolved = some err

section Seeks

variable {α β : Type} {f : Flow} {ls ms : List Lookup}

theorem seeks_ok (a : α) : f.Seeks [] (.ok a) := by
  intro err
  simp [Workflow.firstUnknown?]

theorem Seeks.bind {x : Except CompileError α} {g : α → Except CompileError β} (hx : f.Seeks ls x)
    (hg : ∀ a, x = .ok a → f.Seeks ms (g a)) : f.Seeks (ls ++ ms) (x >>= g) := by
  intro err
  rw [bind_eq_error, Workflow.firstUnknown?_append]
  cases x with
  | error e =>
    obtain ⟨l, hl, rfl⟩ := Option.map_eq_some_iff.1 ((hx e).1 rfl)
    simp [hl]
  | ok a =>
    have hnone : f.workflow.firstUnknown? ls = none := by
      cases hl : f.workflow.firstUnknown? ls with
      | none => rfl
      | some l => cases (hx _).2 (congrArg (Option.map f.unresolved) hl)
    have hrest := hg a rfl err
    simp only [reduceCtorEq, Except.ok.injEq, exists_eq_left', false_or, hnone, Option.none_or]
    exact hrest

theorem Seeks.eq_ok_iff {x : Except CompileError α} (h : f.Seeks ls x) :
    (∃ a, x = .ok a) ↔ ∀ l ∈ ls, f.workflow.Known l.target := by
  have hnone : f.workflow.firstUnknown? ls = none ↔ ∀ l ∈ ls, f.workflow.Known l.target := by
    simp [Workflow.firstUnknown?]
  rw [← hnone]
  cases x with
  | error e =>
    obtain ⟨l, hl, -⟩ := Option.map_eq_some_iff.1 ((h e).1 rfl)
    simp [hl]
  | ok a =>
    cases hl : f.workflow.firstUnknown? ls with
    | none => simp
    | some l => cases (h _).2 (congrArg (Option.map f.unresolved) hl)

theorem seeks_resolve (s : Step) (fromHandler : Bool) (result target : String) :
    f.Seeks [⟨s, result, target⟩] (f.resolve s fromHandler result target) := by
  intro err
  have hnone := resolve?_eq_none f fromHandler target
  unfold resolve Workflow.firstUnknown?
  cases hj : f.resolve? fromHandler target with
  | some j =>
    have hknown : f.workflow.Known target := by
      by_contra h
      rw [hnone.2 h] at hj
      cases hj
    simp [hknown]
  | none =>
    have hknown := hnone.1 hj
    simp [hknown, unresolved]

theorem seeks_declaredJumps (s : Step) (fromHandler : Bool) (es : List (String × String)) (n : Navigation) :
    f.Seeks (es.map fun e => ⟨s, e.1, e.2⟩) (f.declaredJumps s fromHandler es n) := by
  induction es generalizing n with
  | nil => exact seeks_ok n
  | cons e r ih => exact (seeks_resolve s fromHandler e.1 e.2).bind fun j _ => ih (n.insert e.1 j)

theorem seeks_addMissing (key : String) {x : Except CompileError Jump} (hx : f.Seeks ls x)
    (n : Navigation) : f.Seeks (if key ∈ n.keys then [] else ls) (addMissing key x n) := by
  unfold addMissing
  by_cases hkey : key ∈ n.keys
  · rw [if_pos hkey, if_pos (OrderedMap.contains_iff.2 hkey)]
    exact seeks_ok n
  · rw [if_neg hkey, if_neg fun hc => hkey (OrderedMap.contains_iff.1 hc)]
    simpa using hx.bind fun j _ => seeks_ok (n.insert key j)

/-- The name that success leads to when nothing is declared and no regular step follows. -/
def onSuccess? (next : Option StepId) (fromHandler : Bool) : Option String :=
  if next.isSome then none else some (if fromHandler then failure else success)

theorem seeks_defaultSuccess (s : Step) (next : Option StepId) (fromHandler : Bool) :
    f.Seeks ((onSuccess? next fromHandler).toList.map fun name => ⟨s, success, name⟩)
      (f.defaultSuccess s next fromHandler) := by
  cases next with
  | some id => exact seeks_ok _
  | none => exact seeks_resolve s fromHandler success _

theorem seeks_navigationOf (s : Step) (next : Option StepId) (fromHandler : Bool) :
    f.Seeks (s.lookups (onSuccess? next fromHandler)) (f.navigationOf s next fromHandler) := by
  rw [navigationOf_eq]
  refine (seeks_declaredJumps s fromHandler s.navigation.entries .empty).bind ?_
  intro n hn
  have hkeys : n.keys = s.navigation.keys := keys_declaredJumps (n := .empty) s.navigation.distinct hn
  rw [← hkeys]
  refine (seeks_addMissing success (seeks_defaultSuccess s next fromHandler) n).bind ?_
  intro m hm
  -- The default for success adds no entry for failure.
  have hfailure : failure ∈ m.keys ↔ failure ∈ n.keys := by
    have hne : failure ≠ success := by decide
    rw [keys_addMissing hm, List.mem_append]
    split <;> simp [hne]
  have hlast := seeks_addMissing (f := f) failure (seeks_resolve s fromHandler failure failure) m
  rwa [if_congr hfailure rfl rfl] at hlast

theorem seeks_lowerStep (s : Step) (hasSuccessor fromHandler : Bool) :
    f.Seeks (s.lookups (if hasSuccessor then none else some (if fromHandler then failure else success)))
      (f.lowerStep s hasSuccessor fromHandler) := by
  have h := (seeks_navigationOf (f := f) s
    (if hasSuccessor then some (f.entryId s.name + s.width) else none) fromHandler).bind fun n _ =>
      seeks_ok (block s (f.entryId s.name) n)
  rw [List.append_nil] at h
  cases hasSuccessor with
  | true => exact h
  | false => exact h

theorem seeks_lowerRegular (ss : List Step) :
    f.Seeks (ss.dropLast.flatMap (·.lookups none) ++
      ss.getLast?.toList.flatMap (·.lookups (some success))) (f.lowerRegular ss) := by
  induction ss with
  | nil => exact seeks_ok []
  | cons s r ih =>
    have hall : f.Seeks _ (f.lowerRegular (s :: r)) :=
      (seeks_lowerStep s (!r.isEmpty) false).bind fun is _ => ih.bind fun js _ => seeks_ok (is ++ js)
    cases r with
    | nil => simpa using hall
    | cons t r => simpa using hall

theorem seeks_lowerHandler :
    f.Seeks (f.workflow.onFailure.toList.flatMap (·.lookups (some failure))) f.lowerHandler := by
  unfold lowerHandler
  cases f.workflow.onFailure with
  | none => exact seeks_ok []
  | some h => simpa using seeks_lowerStep (f := f) h false true

end Seeks

variable {flow : QualifiedName} {seen : List String} {s : Step} {err : CompileError}

theorem checkSteps_of_fault (h : s.Fault flow seen err) (r : List Step) :
    checkSteps flow seen (s :: r) = .error err := by
  cases h with
  | loops hp => simp [checkSteps, Step.checkLoops, hp, bind, Except.bind]
  | repeatedName hp hname =>
    simp [checkSteps, Step.checkLoops, hp, hname, bind, Except.bind, throw, throwThe, MonadExceptOf.throw]

theorem checkSteps_of_no_fault (hp : s.loopProblem? = none) (hname : s.name ∉ seen) (r : List Step) :
    checkSteps flow seen (s :: r) = checkSteps flow (s.name :: seen) r := by
  simp [checkSteps, Step.checkLoops, hp, hname, bind, Except.bind]

theorem fault_or_not (flow : QualifiedName) (seen : List String) (s : Step) :
    (∃ err, s.Fault flow seen err) ∨ s.loopProblem? = none ∧ s.name ∉ seen := by
  cases hp : s.loopProblem? with
  | some problem => exact .inl ⟨_, .loops hp⟩
  | none =>
    by_cases hname : s.name ∈ seen
    · exact .inl ⟨_, .repeatedName hp hname⟩
    · exact .inr ⟨rfl, hname⟩

/-- The check of the steps fails at the first step that has a fault. -/
theorem checkSteps_eq_error {ss : List Step} :
    checkSteps flow seen ss = .error err ↔ ∃ front s back, ss = front ++ s :: back ∧
      checkSteps flow seen front = .ok () ∧ s.Fault flow (front.map Step.name ++ seen) err := by
  induction ss generalizing seen with
  | nil => simp [checkSteps]
  | cons s r ih =>
    constructor
    · intro h
      rcases fault_or_not flow seen s with ⟨err', hs⟩ | ⟨hp, hname⟩
      · rw [checkSteps_of_fault hs] at h
        obtain rfl := Except.error.inj h
        exact ⟨[], s, r, rfl, rfl, hs⟩
      · rw [checkSteps_of_no_fault hp hname] at h
        obtain ⟨front, x, back, rfl, hfront, hx⟩ := ih.1 h
        refine ⟨s :: front, x, back, rfl, ?_, hx.mono fun _ => List.perm_middle.mem_iff.1⟩
        rw [checkSteps_of_no_fault hp hname, hfront]
    · rintro ⟨front, x, back, heq, hfront, hx⟩
      cases front with
      | nil =>
        obtain ⟨rfl, rfl⟩ := List.cons.inj heq
        exact checkSteps_of_fault hx r
      | cons y front =>
        obtain ⟨rfl, rfl⟩ := List.cons.inj heq
        rcases fault_or_not flow seen s with ⟨err', hs⟩ | ⟨hp, hname⟩
        · rw [checkSteps_of_fault hs] at hfront
          cases hfront
        · rw [checkSteps_of_no_fault hp hname] at hfront ⊢
          exact ih.2 ⟨front, x, back, rfl, hfront, hx.mono fun _ => List.perm_middle.mem_iff.2⟩

theorem checkSteps_iff (flow : QualifiedName) (ss : List Step) :
    checkSteps flow [] ss = .ok () ↔ CheckedSteps ss := by
  rw [checkSteps_eq_ok]
  constructor
  · rintro ⟨hloops, hnames, -⟩
    exact ⟨hloops, hnames⟩
  · rintro ⟨hloops, hnames⟩
    exact ⟨hloops, hnames, by simp⟩

/-- Once the steps are checked, lowering fails only for a name that is not known. -/
theorem plan_eq_bind {f : Flow} (hne : f.workflow.steps ≠ []) :
    ∃ x : Except CompileError Plan, f.Seeks f.workflow.lookups x ∧
      f.plan = checkSteps f.name [] f.workflow.allSteps >>= fun _ => x := by
  unfold plan
  split
  · rename_i hnil
    exact absurd hnil hne
  · rename_i first r hsteps
    refine ⟨_, ?_, rfl⟩
    have h := (seeks_lowerRegular (f := f) f.workflow.steps).bind fun is _ =>
      seeks_lowerHandler.bind fun js _ => seeks_ok (Plan.mk f.name.text f.name.name .flow beginId
        (Plan.stepsOf (⟨beginId, f.name.name, .flowBegin f.inputs (f.entryId first.name)⟩ :: (is ++ js)))
        f.outputs f.workflow.results)
    rw [List.append_nil] at h
    exact h

end Flow

/-- What holds of all names that a step looks up. -/
theorem Step.forall_lookups {s : Step} {onSuccess : Option String} {P : String → Prop} :
    (∀ l ∈ s.lookups onSuccess, P l.target) ↔ (∀ e ∈ s.navigation.entries, P e.2) ∧
      (success ∉ s.navigation.keys → ∀ name ∈ onSuccess, P name) ∧
      (failure ∉ s.navigation.keys → P failure) := by
  have hsuccess : (∀ l ∈ if success ∈ s.navigation.keys then [] else
      onSuccess.toList.map fun name => Lookup.mk s success name, P l.target) ↔
      (success ∉ s.navigation.keys → ∀ name ∈ onSuccess, P name) := by
    split
    · simp [*]
    · simp only [*, not_false_eq_true, forall_const, List.forall_mem_map, Option.mem_toList, Option.mem_def]
  have hfailure : (∀ l ∈ if failure ∈ s.navigation.keys then [] else [Lookup.mk s failure failure],
      P l.target) ↔ (failure ∉ s.navigation.keys → P failure) := by
    split
    · simp [*]
    · simp [*]
  rw [lookups, List.forall_mem_append, List.forall_mem_append, List.forall_mem_map, hsuccess, hfailure]

theorem Workflow.forall_lookups {w : Workflow} {P : String → Prop} :
    (∀ l ∈ w.lookups, P l.target) ↔
      (∀ s ∈ w.allSteps, ∀ e ∈ s.navigation.entries, P e.2) ∧
      (∀ s ∈ w.steps.getLast?, success ∉ s.navigation.keys → P success) ∧
      (∀ s ∈ w.steps, failure ∉ s.navigation.keys → P failure) ∧
      ∀ h ∈ w.onFailure, success ∉ h.navigation.keys ∨ failure ∉ h.navigation.keys → P failure := by
  -- The regular steps are those before the last one and the last one.
  have hregular (Q : Step → Prop) : (∀ s ∈ w.steps, Q s) ↔
      (∀ s ∈ w.steps.dropLast, Q s) ∧ ∀ s ∈ w.steps.getLast?, Q s := by
    cases h : w.steps.getLast? with
    | none => simp [List.getLast?_eq_none_iff.1 h]
    | some s =>
      have hlast := List.dropLast_append_getLast? s h
      nth_rewrite 1 [← hlast]
      rw [List.forall_mem_append]
      simp
  simp only [lookups, List.forall_mem_append, List.forall_mem_flatMap, Option.mem_toList,
    Step.forall_lookups, allSteps, hregular]
  constructor
  · rintro ⟨⟨hfront, hlast⟩, hhandler⟩
    refine ⟨⟨⟨fun s hs => (hfront s hs).1, fun s hs => (hlast s hs).1⟩, fun s hs => (hhandler s hs).1⟩,
      fun s hs hkey => (hlast s hs).2.1 hkey success rfl,
      ⟨fun s hs => (hfront s hs).2.2, fun s hs => (hlast s hs).2.2⟩, ?_⟩
    rintro h hh (hkey | hkey)
    · exact (hhandler h hh).2.1 hkey failure rfl
    · exact (hhandler h hh).2.2 hkey
  · rintro ⟨⟨⟨hfront, hlast⟩, hhandler⟩, hsuccess, ⟨hfrontFailure, hlastFailure⟩, hfailure⟩
    refine ⟨⟨?_, ?_⟩, ?_⟩
    · intro s hs
      refine ⟨hfront s hs, ?_, hfrontFailure s hs⟩
      rintro hkey name ⟨⟩
    · intro s hs
      refine ⟨hlast s hs, ?_, hlastFailure s hs⟩
      rintro hkey name ⟨⟩
      exact hsuccess s hs hkey
    · intro h hh
      refine ⟨hhandler h hh, ?_, fun hkey => hfailure h hh (.inr hkey)⟩
      rintro hkey name ⟨⟩
      exact hfailure h hh (.inl hkey)

namespace Flow

theorem lowerable_iff {f : Flow} : f.Lowerable ↔ f.workflow.steps ≠ [] ∧
    CheckedSteps f.workflow.allSteps ∧ ∀ l ∈ f.workflow.lookups, f.workflow.Known l.target := by
  rw [Workflow.forall_lookups]
  constructor
  · intro h
    exact ⟨h.nonempty, h.checked, h.declared, h.lastSuccess, h.regularFailure, h.handlerFailure⟩
  · rintro ⟨hne, hchecked, hdeclared, hlast, hregular, hhandler⟩
    exact ⟨hne, hchecked, hdeclared, hlast, hregular, hhandler⟩

theorem plan_of_no_steps {f : Flow} (h : f.workflow.steps = []) :
    f.plan = .error (.invalidSource f.name.text ["flow has no steps"]) := by
  simp only [plan, h]

theorem exists_plan_iff {f : Flow} : (∃ p, f.plan = .ok p) ↔ f.Lowerable := by
  by_cases hne : f.workflow.steps = []
  · rw [plan_of_no_steps hne]
    exact ⟨nofun, fun h => absurd hne h.nonempty⟩
  · obtain ⟨x, hx, hplan⟩ := plan_eq_bind hne
    rw [hplan, lowerable_iff, ← hx.eq_ok_iff, ← checkSteps_iff f.name]
    simp only [bind_eq_ok]
    constructor
    · rintro ⟨p, ⟨⟩, hcheck, hp⟩
      exact ⟨hne, hcheck, p, hp⟩
    · rintro ⟨-, hcheck, p, hp⟩
      exact ⟨p, (), hcheck, hp⟩

theorem plan_eq_error_iff {f : Flow} {err : CompileError} : f.plan = .error err ↔ f.FirstFault err := by
  by_cases hne : f.workflow.steps = []
  · rw [plan_of_no_steps hne]
    constructor
    · intro h
      obtain rfl := Except.error.inj h
      exact .noSteps hne
    · intro h
      cases h with
      | noSteps _ => rfl
      | step hsome => exact absurd hne hsome
      | target hsome => exact absurd hne hsome
  · obtain ⟨x, hx, hplan⟩ := plan_eq_bind hne
    rw [hplan, bind_eq_error, checkSteps_eq_error, hx err, Option.map_eq_some_iff]
    constructor
    · rintro (⟨front, s, back, hsplit, hfront, hs⟩ | ⟨⟨⟩, hcheck, l, hl, rfl⟩)
      · exact .step hne hsplit ((checkSteps_iff _ _).1 hfront) (by simpa using hs)
      · obtain ⟨front, back, hsplit, hfront, hl⟩ := Workflow.firstUnknown?_eq_some.1 hl
        exact .target hne ((checkSteps_iff _ _).1 hcheck) hsplit hfront hl
    · intro h
      cases h with
      | noSteps hnil => exact absurd hnil hne
      | step _ hsplit hfront hs =>
        exact .inl ⟨_, _, _, hsplit, (checkSteps_iff _ _).2 hfront, by simpa using hs⟩
      | target _ hcheck hsplit hfront hl =>
        refine .inr ⟨(), (checkSteps_iff _ _).2 hcheck, _, ?_, rfl⟩
        exact Workflow.firstUnknown?_eq_some.2 ⟨_, _, hsplit, hfront, hl⟩

/-- Exactly the flows with steps, sound loops, distinct names and known targets can be lowered; of any other flow the
first fault is reported. -/
theorem plan_outcome (f : Flow) : ((∃ p, f.plan = .ok p) ↔ f.Lowerable) ∧
    ∀ err, f.plan = .error err ↔ f.FirstFault err :=
  ⟨exists_plan_iff, fun _ => plan_eq_error_iff⟩

end Flow

end WorkflowCompiler
