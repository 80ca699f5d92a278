import WorkflowCompiler.Proofs.Jumps
import WorkflowCompiler.Proofs.Lowerable

/-!
Where success and failure lead when a step does not declare them. The defaults are looked up as declared targets
are, so a step that is called as a result is takes the place of that result. They lead to results and to the failure
handler exactly when no step is called so; a flow without declared navigation then only goes forward.
-/

namespace WorkflowCompiler

theorem OrderedMap.get?_eq_none {α : Type} {m : OrderedMap String α} {key : String} :
    m.get? key = none ↔ key ∉ m.keys := by
  rw [← contains_iff, contains, Option.not_isSome_iff_eq_none]

theorem Flow.idAfter_append (id : StepId) (ss ts : List Step) :
    idAfter id (ss ++ ts) = idAfter (idAfter id ss) ts :=
  List.foldl_append

/-- The order in which steps are laid out. -/
def Place.Before : Place → Place → Prop
  | .regular i, .regular j => i < j
  | .regular _, .handler => True
  | .handler, _ => False

namespace Workflow

variable {w : Workflow} {q q' : Place} {s : Step}

theorem idAfter_take_le (ss : List Step) {i j : Nat} (h : i ≤ j) :
    Flow.idAfter 2 (ss.take i) ≤ Flow.idAfter 2 (ss.take j) := by
  have hsplit : ss.take j = ss.take i ++ (ss.take j).drop i := by
    have hcut := List.take_append_drop i (ss.take j)
    rwa [List.take_take, Nat.min_eq_left h, eq_comm] at hcut
  rw [hsplit, Flow.idAfter_append]
  exact Flow.le_idAfter _ _

/-- A later block starts after the end of an earlier one. -/
theorem entry_of_before (hs : w.stepAt? q = some s) (h : q.Before q') :
    w.entry q + s.width ≤ w.entry q' := by
  cases q with
  | handler => cases h
  | regular i =>
    have hend : w.entry (.regular i) + s.width = Flow.idAfter 2 (w.steps.take (i + 1)) := by
      rw [List.take_add_one, show w.steps[i]? = some s from hs, Flow.idAfter_append]
      rfl
    rw [hend]
    cases q' with
    | regular j => exact idAfter_take_le w.steps h
    | handler =>
      have hlt := (List.getElem?_eq_some_iff.1 hs).1
      have hle := idAfter_take_le w.steps (Nat.succ_le_of_lt hlt)
      rwa [List.take_length] at hle

theorem move_success_next {i : Nat} (hs : w.stepAt? (.regular i) = some s)
    (hlt : i + 1 < w.steps.length) (hkey : success ∉ s.navigation.keys) :
    w.move (.regular i) success = .goTo (.regular (i + 1)) := by
  simp [move, hs, target?, OrderedMap.get?_eq_none.2 hkey, hlt]

theorem move_failure (hs : w.stepAt? q = some s) (hkey : failure ∉ s.navigation.keys) :
    w.move q failure = w.follow q failure := by
  have hne : failure ≠ success := by decide
  simp [move, hs, target?, OrderedMap.get?_eq_none.2 hkey, hne]

theorem move_success_last {i : Nat} (hs : w.stepAt? (.regular i) = some s)
    (hlast : i + 1 = w.steps.length) (hkey : success ∉ s.navigation.keys) :
    w.move (.regular i) success = w.follow (.regular i) success := by
  simp [move, hs, target?, OrderedMap.get?_eq_none.2 hkey, hlast]

theorem move_success_handler (hs : w.stepAt? .handler = some s) (hkey : success ∉ s.navigation.keys) :
    w.move .handler success = w.follow .handler failure := by
  simp [move, hs, target?, OrderedMap.get?_eq_none.2 hkey]

theorem move_other {r : String} (hs : w.stepAt? q = some s) (hkey : r ∉ s.navigation.keys)
    (hsuccess : r ≠ success) (hfailure : r ≠ failure) : w.move q r = .halt := by
  simp [move, hs, target?, OrderedMap.get?_eq_none.2 hkey, hsuccess, hfailure]

/-- A name is followed to the step that has it; failure that is no step's name leads to the failure handler. -/
theorem follow_eq_goTo {name : String} (h : w.follow q name = .goTo q') :
    w.placeOf? name = some q' ∨ name = failure ∧ w.placeOf? failure = none ∧ q ≠ .handler ∧ q' = .handler := by
  unfold follow at h
  split at h
  · rename_i hplace
    obtain rfl := Move.goTo.inj h
    exact .inl hplace
  · rename_i hplace
    split at h
    · rename_i hcond
      obtain rfl := Move.goTo.inj h
      obtain ⟨rfl, hq, -⟩ := hcond
      exact .inr ⟨rfl, hplace, hq, rfl⟩
    · cases h

/-- All moves lead to later steps. -/
def Forward (w : Workflow) : Prop :=
  ∀ q s r q', w.stepAt? q = some s → w.move q r = .goTo q' → w.entry q + s.width ≤ w.entry q'

/-- Steps that declare nothing go to the next one or to the failure handler, unless names lead elsewhere. -/
theorem before_of_move {r : String} (hs : w.stepAt? q = some s) (hplain : s.navigation = .empty)
    (hsuccess : success ∉ w.steps.map Step.name) (hfailure : failure ∉ w.allSteps.map Step.name)
    (h : w.move q r = .goTo q') : q.Before q' := by
  have hkey (r : String) : r ∉ s.navigation.keys := by
    rw [hplain]
    exact List.not_mem_nil
  have hnone := placeOf?_eq_none.2 hfailure
  have hfail (h : w.follow q failure = .goTo q') : q.Before q' := by
    rcases follow_eq_goTo h with hplace | ⟨-, -, hq, rfl⟩
    · rw [hnone] at hplace
      cases hplace
    · cases q with
      | regular i => trivial
      | handler => exact absurd rfl hq
  by_cases hr : r = success
  · subst hr
    cases q with
    | handler =>
      rw [move_success_handler hs (hkey _)] at h
      exact hfail h
    | regular i =>
      by_cases hlt : i + 1 < w.steps.length
      · rw [move_success_next hs hlt (hkey _)] at h
        obtain rfl := Move.goTo.inj h
        exact Nat.lt_succ_self i
      · have hlast : i + 1 = w.steps.length := by
          have := (List.getElem?_eq_some_iff.1 hs).1
          omega
        rw [move_success_last hs hlast (hkey _)] at h
        rcases follow_eq_goTo h with hplace | ⟨heq, -⟩
        · cases q' with
          | regular k => exact absurd (placeOf?_regular.1 ⟨k, hplace⟩) hsuccess
          | handler => trivial
        · exact absurd heq (by decide)
  · by_cases hr' : r = failure
    · subst hr'
      rw [move_failure hs (hkey _)] at h
      exact hfail h
    · rw [move_other hs (hkey _) hr hr'] at h
      cases h

/-- Without declared navigation a workflow only goes forward exactly when no regular step is called success and no
step is called failure. -/
theorem forward_iff (hplain : ∀ s ∈ w.allSteps, s.navigation = .empty) :
    w.Forward ↔ success ∉ w.steps.map Step.name ∧ failure ∉ w.allSteps.map Step.name := by
  have hkey {q : Place} {s : Step} (hs : w.stepAt? q = some s) (r : String) : r ∉ s.navigation.keys := by
    rw [hplain s (mem_allSteps hs)]
    exact List.not_mem_nil
  constructor
  · intro hforward
    constructor
    · -- The last step would go back to the one that is called success.
      intro hmem
      obtain ⟨k, hk⟩ := placeOf?_regular.2 hmem
      obtain ⟨t, ht, -⟩ := stepAt?_of_placeOf? hk
      have hklt := (List.getElem?_eq_some_iff.1 ht).1
      have hlast : w.steps.length - 1 + 1 = w.steps.length := by omega
      obtain ⟨s, hs⟩ : ∃ s, w.stepAt? (.regular (w.steps.length - 1)) = some s :=
        ⟨_, List.getElem?_eq_getElem (by omega)⟩
      have hmove := move_success_last hs hlast (hkey hs _)
      rw [follow, hk] at hmove
      have hle := hforward _ s _ _ hs hmove
      have hback := idAfter_take_le w.steps (Nat.le_sub_one_of_lt hklt)
      exact absurd (Int.le_trans hle hback) (Int.not_le.2 (Int.lt_add_of_pos_right _ s.width_pos))
    · -- A step that is called failure would go to itself.
      intro hmem
      cases hq : w.placeOf? failure with
      | none => exact placeOf?_eq_none.1 hq hmem
      | some q =>
        obtain ⟨s, hs, -⟩ := stepAt?_of_placeOf? hq
        have hmove := move_failure hs (hkey hs _)
        rw [follow, hq] at hmove
        have hle := hforward q s _ q hs hmove
        exact absurd hle (Int.not_le.2 (Int.lt_add_of_pos_right _ s.width_pos))
  · rintro ⟨hsuccess, hfailure⟩ q s r q' hs hmove
    exact entry_of_before hs
      (before_of_move hs (hplain s (mem_allSteps hs)) hsuccess hfailure hmove)

end Workflow

theorem Plan.HasBlock.unique {p : Plan} {id : StepId} {s : Step} {n m : Navigation}
    (h : p.HasBlock id s n) (h' : p.HasBlock id s m) : n = m := by
  unfold HasBlock at h h'
  cases hl : s.parallelLoop with
  | none =>
    simp only [hl] at h h'
    rw [h] at h'
    simpa using h'
  | some loop =>
    simp only [hl] at h h'
    have hjoin := h'.2.2.2
    rw [h.2.2.2] at hjoin
    simpa using hjoin

namespace Plan

/-- Control only passes to larger ids. -/
def Increasing (p : Plan) : Prop := ∀ i ∈ p.instructions, ∀ id ∈ i.successors, i.id < id

/-- Control can pass from one id to another. -/
def Leads (p : Plan) (id id' : StepId) : Prop := ∃ i ∈ p.instructions, i.id = id ∧ id' ∈ i.successors

theorem Increasing.acyclic {p : Plan} (h : p.Increasing) (id : StepId) :
    ¬ Relation.TransGen p.Leads id id := by
  have hlt {id id' : StepId} (hpath : Relation.TransGen p.Leads id id') : id < id' := by
    induction hpath with
    | single hstep =>
      obtain ⟨i, hi, rfl, hid⟩ := hstep
      exact h i hi _ hid
    | tail _ hstep ih =>
      obtain ⟨i, hi, rfl, hid⟩ := hstep
      exact Int.lt_trans ih (h i hi _ hid)
  exact fun hcycle => Int.lt_irrefl id (hlt hcycle)

end Plan

namespace Flow

variable {f : Flow} {p : Plan} {q : Place} {s : Step}

/-- In the plan the step at a place answers a result by a jump. -/
def Answers (f : Flow) (p : Plan) (q : Place) (result : String) (j : Jump) : Prop :=
  ∃ s navigation, f.workflow.stepAt? q = some s ∧ p.HasBlock (f.workflow.entry q) s navigation ∧
    navigation.get? result = some j

/-- Where a regular step should go when it fails. -/
def failureJump (f : Flow) : Jump :=
  if f.workflow.onFailure.isSome then .toStep (f.workflow.entry .handler) else .toEnd failure

/-- What steps do not declare leads to results and to the failure handler. -/
structure DefaultsAreResults (f : Flow) (p : Plan) : Prop where
  lastSuccess : ∀ i s, f.workflow.steps[i]? = some s → i + 1 = f.workflow.steps.length →
    success ∉ s.navigation.keys → f.Answers p (.regular i) success (.toEnd success)
  regularFailure : ∀ i s, f.workflow.steps[i]? = some s →
    failure ∉ s.navigation.keys → f.Answers p (.regular i) failure f.failureJump
  handlerSuccess : ∀ h, f.workflow.onFailure = some h →
    success ∉ h.navigation.keys → f.Answers p .handler success (.toEnd failure)
  handlerFailure : ∀ h, f.workflow.onFailure = some h →
    failure ∉ h.navigation.keys → f.Answers p .handler failure (.toEnd failure)

/-- No step is called as a result is to which a default leads. A failure handler may be called failure as far as the
regular steps are concerned. -/
structure Unshadowed (f : Flow) : Prop where
  lastSuccess : ∀ i s, f.workflow.steps[i]? = some s → i + 1 = f.workflow.steps.length →
    success ∉ s.navigation.keys → success ∉ f.workflow.allSteps.map Step.name
  regularFailure : ∀ s ∈ f.workflow.steps, failure ∉ s.navigation.keys →
    failure ∉ f.workflow.steps.map Step.name
  handlerFailure : ∀ h ∈ f.workflow.onFailure,
    success ∉ h.navigation.keys ∨ failure ∉ h.navigation.keys →
      failure ∉ f.workflow.allSteps.map Step.name

theorem jumpOf_eq_some {m : Move} {j : Jump} (h : f.jumpOf m = some j) :
    (∃ q', m = .goTo q' ∧ j = .toStep (f.workflow.entry q')) ∨ ∃ result, m = .finish result ∧ j = .toEnd result := by
  cases m with
  | goTo q' => exact .inl ⟨q', rfl, (Option.some.inj h).symm⟩
  | finish result => exact .inr ⟨result, rfl, (Option.some.inj h).symm⟩
  | halt => cases h

/-- A name that is no step's is followed to the end with that result. -/
theorem jumpOf_follow_end {name : String} (h : ¬ (name = failure ∧ q ≠ .handler)) :
    f.jumpOf (f.workflow.follow q name) = some (.toEnd name) ↔
      name ∉ f.workflow.allSteps.map Step.name := by
  rw [← Workflow.placeOf?_eq_none, Workflow.follow]
  cases f.workflow.placeOf? name with
  | some q' => simp [jumpOf, Jump.toStep, Jump.toEnd]
  | none =>
    rw [if_neg fun hc => h ⟨hc.1, hc.2.1⟩]
    simp [jumpOf]

/-- From a regular step failure leads to the failure handler or to the end, unless a regular step is called so. -/
theorem jumpOf_follow_failure {i : Nat} :
    f.jumpOf (f.workflow.follow (.regular i) failure) = some f.failureJump ↔
      failure ∉ f.workflow.steps.map Step.name := by
  rw [← Workflow.placeOf?_regular, Workflow.follow, failureJump]
  cases hq : f.workflow.placeOf? failure with
  | none => by_cases hh : f.workflow.onFailure.isSome <;> simp [hh, jumpOf]
  | some q' =>
    obtain ⟨s, hs, -⟩ := Workflow.stepAt?_of_placeOf? hq
    cases q' with
    | handler =>
      have hh : f.workflow.onFailure.isSome := Option.isSome_iff_exists.2 ⟨s, hs⟩
      simp [hh, jumpOf]
    | regular k =>
      have hlt : f.workflow.entry (.regular k) < f.workflow.entry .handler :=
        Int.lt_of_lt_of_le (Int.lt_add_of_pos_right _ s.width_pos) (Workflow.entry_of_before hs trivial)
      by_cases hh : f.workflow.onFailure.isSome
      · have hne := Int.ne_of_lt hlt
        simp [hh, jumpOf, Jump.toStep, hne]
      · simp [hh, jumpOf, Jump.toStep, Jump.toEnd]

/-- Every site is that of a step at its place. -/
theorem place_of_site {t : Site} (ht : t ∈ f.sites) :
    ∃ q s, f.workflow.stepAt? q = some s ∧ t = f.siteAt q s := by
  rcases List.mem_append.1 ht with ht | ht
  · obtain ⟨i, hi⟩ := List.getElem?_of_mem ht
    rw [getElem?_regularSites] at hi
    obtain ⟨s, hs, rfl⟩ := Option.map_eq_some_iff.1 hi
    exact ⟨.regular i, s, hs, rfl⟩
  · obtain ⟨s, hs, rfl⟩ := List.mem_map.1 ht
    exact ⟨.handler, s, Option.mem_toList.1 hs, rfl⟩

namespace Lowered

theorem answers_iff (h : f.Lowered p) (hs : f.workflow.stepAt? q = some s) {r : String} {j : Jump} :
    f.Answers p q r j ↔ f.jumpOf (f.workflow.move q r) = some j := by
  have hblock := h.hasBlock (siteAt_mem hs)
  rw [← h.get?_navigation hs]
  constructor
  · rintro ⟨s', n, hs', hn, hj⟩
    rw [hs] at hs'
    obtain rfl := Option.some.inj hs'
    rwa [hn.unique hblock] at hj
  · intro hj
    exact ⟨s, _, hs, hblock, hj⟩

theorem answers_success_last (h : f.Lowered p) {i : Nat} (hs : f.workflow.stepAt? (.regular i) = some s)
    (hi : i + 1 = f.workflow.steps.length) (hkey : success ∉ s.navigation.keys) :
    f.Answers p (.regular i) success (.toEnd success) ↔ success ∉ f.workflow.allSteps.map Step.name := by
  have hne : success ≠ failure := by decide
  rw [h.answers_iff hs, Workflow.move_success_last hs hi hkey]
  exact jumpOf_follow_end fun hc => hne hc.1

theorem answers_failure_regular (h : f.Lowered p) {i : Nat}
    (hs : f.workflow.stepAt? (.regular i) = some s) (hkey : failure ∉ s.navigation.keys) :
    f.Answers p (.regular i) failure f.failureJump ↔ failure ∉ f.workflow.steps.map Step.name := by
  rw [h.answers_iff hs, Workflow.move_failure hs hkey, jumpOf_follow_failure]

/-- By default the failure handler follows the name failure, whatever its result. -/
theorem answers_handler (h : f.Lowered p) {r : String} (hs : f.workflow.stepAt? .handler = some s)
    (hr : r = success ∨ r = failure) (hkey : r ∉ s.navigation.keys) :
    f.Answers p .handler r (.toEnd failure) ↔ failure ∉ f.workflow.allSteps.map Step.name := by
  have hmove : f.workflow.move .handler r = f.workflow.follow .handler failure := by
    rcases hr with rfl | rfl
    · exact Workflow.move_success_handler hs hkey
    · exact Workflow.move_failure hs hkey
  rw [h.answers_iff hs, hmove]
  exact jumpOf_follow_end fun hc => hc.2 rfl

/-- The defaults lead where they should exactly when no step takes the place of a result. -/
theorem defaults_iff (h : f.Lowered p) : f.DefaultsAreResults p ↔ f.Unshadowed := by
  constructor
  · intro hd
    refine ⟨?_, ?_, ?_⟩
    · intro i s hs hi hkey
      exact (h.answers_success_last hs hi hkey).1 (hd.lastSuccess i s hs hi hkey)
    · intro s hs hkey
      obtain ⟨i, hs⟩ := List.getElem?_of_mem hs
      exact (h.answers_failure_regular hs hkey).1 (hd.regularFailure i s hs hkey)
    · rintro s hs (hkey | hkey)
      · exact (h.answers_handler hs (.inl rfl) hkey).1 (hd.handlerSuccess s hs hkey)
      · exact (h.answers_handler hs (.inr rfl) hkey).1 (hd.handlerFailure s hs hkey)
  · intro hu
    refine ⟨?_, ?_, ?_, ?_⟩
    · intro i s hs hi hkey
      exact (h.answers_success_last hs hi hkey).2 (hu.lastSuccess i s hs hi hkey)
    · intro i s hs hkey
      exact (h.answers_failure_regular hs hkey).2 (hu.regularFailure s (List.mem_of_getElem? hs) hkey)
    · intro s hs hkey
      exact (h.answers_handler hs (.inl rfl) hkey).2 (hu.handlerFailure s hs (.inl hkey))
    · intro s hs hkey
      exact (h.answers_handler hs (.inr rfl) hkey).2 (hu.handlerFailure s hs (.inr hkey))

/-- The successors of the instruction that holds a step's navigation are where the step can go. -/
theorem mem_successors (h : f.Lowered p) (hs : f.workflow.stepAt? q = some s) {i : Instruction}
    (hn : i.navigation? = some (f.navigationAt (f.siteAt q s))) {id : StepId} :
    id ∈ i.successors ↔ ∃ r q', f.workflow.move q r = .goTo q' ∧ f.workflow.entry q' = id := by
  rw [Instruction.mem_successors hn]
  constructor
  · rintro ⟨⟨r, j⟩, he, hend, rfl⟩
    have hj := (OrderedMap.get?_iff_mem _ r j).2 he
    rw [h.get?_navigation hs] at hj
    rcases jumpOf_eq_some hj with ⟨q', hm, rfl⟩ | ⟨result, -, rfl⟩
    · exact ⟨r, q', hm, rfl⟩
    · cases hend
  · rintro ⟨r, q', hm, rfl⟩
    have hj := h.get?_navigation hs r
    rw [hm] at hj
    exact ⟨_, (OrderedMap.get?_iff_mem _ r _).1 hj, isTerminal_toStep_entry f.workflow q', rfl⟩

theorem exists_holder (h : f.Lowered p) (hs : f.workflow.stepAt? q = some s) :
    ∃ i ∈ p.instructions, i.id + 1 = f.workflow.entry q + s.width ∧
      i.navigation? = some (f.navigationAt (f.siteAt q s)) := by
  have hmem {i : Instruction} (hi : i ∈ block s (f.workflow.entry q) (f.navigationAt (f.siteAt q s))) :
      i ∈ p.instructions :=
    h.block_mem (siteAt_mem hs) hi
  unfold block at hmem
  cases hl : s.parallelLoop with
  | none =>
    simp only [hl] at hmem
    refine ⟨_, hmem List.mem_cons_self, ?_, rfl⟩
    simp [Step.width, hl]
  | some loop =>
    simp only [hl] at hmem
    refine ⟨_, hmem (.tail _ (.tail _ (.tail _ (.head _)))), ?_, rfl⟩
    simp [Step.width, hl, Int.add_assoc]

theorem increasing_iff (h : f.Lowered p) : p.Increasing ↔ f.workflow.Forward := by
  constructor
  · intro hinc q s r q' hs hm
    obtain ⟨i, hi, hid, hn⟩ := h.exists_holder hs
    have hlt := hinc i hi _ ((h.mem_successors hs hn).2 ⟨r, q', hm, rfl⟩)
    rw [← hid]
    exact Int.add_one_le_of_lt hlt
  · intro hforward i hi id hid
    rcases h.mem_cases hi with rfl | ⟨t, ht, hblock⟩
    · obtain rfl : id = 2 := by simpa [Instruction.successors] using hid
      exact Int.lt_succ 1
    · rcases passes_of_block hblock with hn | ⟨-, hnext⟩
      · obtain ⟨q, s, hs, rfl⟩ := place_of_site ht
        obtain ⟨r, q', hm, rfl⟩ := (h.mem_successors hs hn).1 hid
        exact Int.lt_of_lt_of_le (id_of_block hblock).2 (hforward q s r q' hs hm)
      · rw [(hnext id hid).1]
        exact Int.lt_succ i.id

end Lowered

/-- Defaults lead to results and to the failure handler exactly when no step is called as such a result is. A flow that
declares no navigation then has no cycle; it only goes forward exactly when no regular step is called success and no
step is called failure. -/
theorem defaults_of_plan {f : Flow} {p : Plan} (h : f.plan = .ok p) :
    (f.DefaultsAreResults p ↔ f.Unshadowed) ∧
      ((∀ s ∈ f.workflow.allSteps, s.navigation = .empty) →
        (p.Increasing ↔ success ∉ f.workflow.steps.map Step.name ∧
          failure ∉ f.workflow.allSteps.map Step.name) ∧
        (p.Increasing → ∀ id, ¬ Relation.TransGen p.Leads id id)) := by
  have hl := lowered_of_plan h
  refine ⟨hl.defaults_iff, fun hplain => ⟨?_, Plan.Increasing.acyclic⟩⟩
  rw [hl.increasing_iff, Workflow.forward_iff hplain]

end Flow

/-- A step that declares nothing. -/
def plainStep (name : String) : Step where
  name := name
  reference := ⟨"jobs", "task", by decide, by decide⟩
  arguments := []
  loop := none
  parallelLoop := none
  publish := []
  aggregate := []
  navigation := .empty
  isAsync := false

/-- A parallel loop, a step and a failure handler. -/
def plainFlow : Flow where
  name := ⟨"jobs", "plain", by decide, by decide⟩
  inputs := []
  outputs := []
  workflow :=
    { steps := [{ plainStep "fan" with parallelLoop := some ⟨"x", "xs"⟩, isAsync := true }, plainStep "check"]
      onFailure := some (plainStep "clean")
      results := ["SUCCESS", "FAILURE"] }

theorem plainFlow_defaults : ∃ p, plainFlow.plan = .ok p ∧ plainFlow.DefaultsAreResults p ∧
    p.Increasing ∧ ∀ id, ¬ Relation.TransGen p.Leads id id := by
  obtain ⟨p, hp⟩ : ∃ p, plainFlow.plan = .ok p := ⟨_, rfl⟩
  obtain ⟨hdefaults, hforward⟩ := Flow.defaults_of_plan hp
  have hsuccess : success ∉ plainFlow.workflow.allSteps.map Step.name := by decide
  have hfailure : failure ∉ plainFlow.workflow.allSteps.map Step.name := by decide
  have hregular : failure ∉ plainFlow.workflow.steps.map Step.name := by decide
  obtain ⟨hinc, hacyclic⟩ := hforward (by decide)
  have hp' := hinc.2 ⟨by decide, hfailure⟩
  exact ⟨p, hp, hdefaults.2 ⟨fun _ _ _ _ _ => hsuccess, fun _ _ _ => hregular, fun _ _ _ => hfailure⟩,
    hp', hacyclic hp'⟩

/-- A failure handler that is called as the result is to which it leads by default. -/
def namesakeFlow : Flow where
  name := ⟨"jobs", "namesake", by decide, by decide⟩
  inputs := []
  outputs := []
  workflow :=
    { steps := [plainStep "work"]
      onFailure := some (plainStep "FAILURE")
      results := ["SUCCESS", "FAILURE"] }

/-- Whether it succeeds or fails, the handler goes to itself and never to the end. -/
theorem namesakeFlow_repeats : ∃ p, namesakeFlow.plan = .ok p ∧
    namesakeFlow.Answers p .handler success (.toStep 3) ∧
    namesakeFlow.Answers p .handler failure (.toStep 3) ∧
    ¬ namesakeFlow.DefaultsAreResults p ∧ ¬ p.Increasing ∧ Relation.TransGen p.Leads 3 3 := by
  obtain ⟨p, hp⟩ : ∃ p, namesakeFlow.plan = .ok p := ⟨_, rfl⟩
  have hl := Flow.lowered_of_plan hp
  have hs : namesakeFlow.workflow.stepAt? .handler = some (plainStep "FAILURE") := rfl
  refine ⟨p, hp, (hl.answers_iff hs).2 rfl, (hl.answers_iff hs).2 rfl, ?_, ?_, ?_⟩
  · intro hd
    exact absurd ((hl.defaults_iff.1 hd).handlerFailure _ hs (.inl (by decide))) (by decide)
  · rw [hl.increasing_iff, Workflow.forward_iff (by decide)]
    decide
  · obtain ⟨i, hi, hid, hn⟩ := hl.exists_holder hs
    have hid : i.id = 3 := (Int.add_left_inj 1).1 hid
    exact .single ⟨i, hi, hid, (hl.mem_successors hs hn).2 ⟨failure, .handler, rfl, rfl⟩⟩

end WorkflowCompiler
