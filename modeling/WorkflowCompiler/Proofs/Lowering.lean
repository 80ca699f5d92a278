import WorkflowCompiler.Plan.Lowering
import WorkflowCompiler.Proofs.Basic

/-!
What lowering a flow gives. Every step has a site: the first id of its block, where success leads when nothing
is declared, and whether it is the failure handler. A plan that lowering returns holds the begin
instruction and the blocks of all sites, one after the other without a gap, and the navigation of a
site answers a result by the declared target or by the default.
-/

namespace WorkflowCompiler

/-- A step at the place where it is lowered. -/
structure Site where
  /-- The first id of the block. -/
  id : StepId
  step : Step
  /-- The first id of the next regular step. -/
  next : Option StepId
  isHandler : Bool

theorem Step.width_pos (s : Step) : 0 < s.width := by
  unfold Step.width
  split <;> decide

theorem Step.toNat_width (s : Step) : (s.width.toNat : Int) = s.width :=
  Int.toNat_of_nonneg (Int.le_of_lt s.width_pos)

namespace Flow

/-- The id after the blocks of all steps of a list that starts at `id`. -/
def idAfter (id : StepId) (ss : List Step) : StepId := ss.foldl (fun i s => i + s.width) id

theorem idAfter_cons (id : StepId) (s : Step) (r : List Step) :
    idAfter id (s :: r) = idAfter (id + s.width) r := rfl

theorem le_idAfter (id : StepId) (ss : List Step) : id ≤ idAfter id ss := by
  induction ss generalizing id with
  | nil => exact Int.le_refl id
  | cons s r ih =>
    have hw : id ≤ id + s.width := Int.le_add_of_nonneg_right (Int.le_of_lt s.width_pos)
    rw [idAfter_cons]
    exact Int.le_trans hw (ih (id + s.width))

def regularSites (id : StepId) : List Step → List Site
  | [] => []
  | s :: r =>
    ⟨id, s, if r.isEmpty then none else some (id + s.width), false⟩ :: regularSites (id + s.width) r

/-- The sites of the regular steps, then that of the failure handler. -/
def sites (f : Flow) : List Site :=
  regularSites 2 f.workflow.steps ++
    f.workflow.onFailure.toList.map fun h => ⟨idAfter 2 f.workflow.steps, h, none, true⟩

theorem getElem?_regularSites (id : StepId) (ss : List Step) (i : Nat) :
    (regularSites id ss)[i]? = ss[i]?.map fun s =>
      ⟨idAfter id (ss.take i), s,
        if i + 1 < ss.length then some (idAfter id (ss.take (i + 1))) else none, false⟩ := by
  induction ss generalizing id i with
  | nil => simp [regularSites]
  | cons s r ih =>
    cases i with
    | zero =>
      cases r with
      | nil => simp [regularSites, idAfter]
      | cons t r => simp [regularSites, idAfter]
    | succ i => simp [regularSites, ih, idAfter_cons]

theorem placed_append (id : StepId) (ss ts : List Step) :
    placed id (ss ++ ts) = placed id ss ++ placed (idAfter id ss) ts := by
  induction ss generalizing id with
  | nil => rfl
  | cons s r ih => simp [placed, ih, idAfter_cons]

theorem placed_eq_regularSites (id : StepId) (ss : List Step) :
    placed id ss = (regularSites id ss).map fun t => (t.id, t.step) := by
  induction ss generalizing id with
  | nil => rfl
  | cons s r ih => simp [placed, regularSites, ih]

theorem placed_eq_sites (f : Flow) :
    placed 2 f.workflow.allSteps = f.sites.map fun t => (t.id, t.step) := by
  rw [Workflow.allSteps, placed_append, placed_eq_regularSites, sites, List.map_append]
  cases f.workflow.onFailure with
  | none => rfl
  | some h => rfl

theorem map_step_sites (f : Flow) : f.sites.map Site.step = f.workflow.allSteps := by
  have hplaced (id : StepId) (ss : List Step) : (placed id ss).map Prod.snd = ss := by
    induction ss generalizing id with
    | nil => rfl
    | cons s r ih => simp [placed, ih]
  have h := hplaced 2 f.workflow.allSteps
  rw [placed_eq_sites, List.map_map] at h
  exact h

/-- The navigation of a site, where it can be resolved. -/
def navigationAt (f : Flow) (t : Site) : Navigation :=
  match f.navigationOf t.step t.next t.isHandler with
  | .ok navigation => navigation
  | .error _ => .empty

def blockAt (f : Flow) (t : Site) : List Instruction := block t.step t.id (f.navigationAt t)

/-- All targets of a site can be resolved. -/
def Resolved (f : Flow) (t : Site) : Prop :=
  f.navigationOf t.step t.next t.isHandler = .ok (f.navigationAt t)

/-- The table of first ids, read off the sites. -/
theorem entryIds_eq (f : Flow) : f.entryIds = f.sites.map fun t => (t.step.name, t.id) := by
  rw [entryIds, placed_eq_sites, List.map_map]
  rfl

/-- With distinct names the id of every site is the one that is reserved for its step. -/
theorem entryId_site {f : Flow} (hnames : (f.workflow.allSteps.map Step.name).Nodup) {t : Site}
    (ht : t ∈ f.sites) : f.entryId t.step.name = t.id := by
  have hkeys : (f.entryIds.map Prod.fst).Nodup := by
    rw [← map_step_sites, List.map_map] at hnames
    rw [entryIds_eq, List.map_map]
    exact hnames
  have hmem : (t.step.name, t.id) ∈ f.entryIds := by
    rw [entryIds_eq]
    exact List.mem_map_of_mem ht
  have hfound : f.entryId? t.step.name = some t.id := (lookup_iff_mem hkeys t.step.name t.id).2 hmem
  rw [entryId, hfound, Option.getD_some]

theorem lowerStep_ok {f : Flow} {t : Site} {hasSuccessor : Bool} {is : List Instruction}
    (hid : f.entryId t.step.name = t.id)
    (hnext : t.next = if hasSuccessor then some (t.id + t.step.width) else none)
    (h : f.lowerStep t.step hasSuccessor t.isHandler = .ok is) : f.Resolved t ∧ is = f.blockAt t := by
  obtain ⟨navigation, hn, hb⟩ := bind_eq_ok.1 h
  rw [hid, ← hnext] at hn
  have hat : f.navigationAt t = navigation := by simp only [navigationAt, hn]
  constructor
  · rw [Resolved, hn, hat]
  · rw [blockAt, hat, ← hid]
    exact (Except.ok.inj hb).symm

/-- The blocks of regular steps are those of their sites, when the reserved ids are those of the sites. -/
theorem lowerRegular_ok {f : Flow} {id : StepId} {ss : List Step} {is : List Instruction}
    (hids : ∀ t ∈ regularSites id ss, f.entryId t.step.name = t.id) (h : f.lowerRegular ss = .ok is) :
    (∀ t ∈ regularSites id ss, f.Resolved t) ∧ is = (regularSites id ss).flatMap f.blockAt := by
  induction ss generalizing id is with
  | nil =>
    simp only [lowerRegular, Except.ok.injEq] at h
    simp [regularSites, ← h]
  | cons s r ih =>
    obtain ⟨hid, hrestIds⟩ := List.forall_mem_cons.1 hids
    obtain ⟨js, hs, h⟩ := bind_eq_ok.1 h
    obtain ⟨ks, hr, h⟩ := bind_eq_ok.1 h
    obtain rfl := Except.ok.inj h
    have hnext : (if r.isEmpty then none else some (id + s.width)) =
        if !r.isEmpty then some (id + s.width) else none := by
      cases r with
      | nil => rfl
      | cons t r => rfl
    obtain ⟨hres, rfl⟩ := lowerStep_ok
      (t := ⟨id, s, if r.isEmpty then none else some (id + s.width), false⟩) hid hnext hs
    obtain ⟨hrest, rfl⟩ := ih hrestIds hr
    exact ⟨List.forall_mem_cons.2 ⟨hres, hrest⟩, rfl⟩

/-- The begin instruction and the blocks of all sites. -/
def instructions (f : Flow) : List Instruction :=
  ⟨beginId, f.name.name, .flowBegin f.inputs 2⟩ :: f.sites.flatMap f.blockAt

/-- What a successful lowering has checked, and the plan that it returns. -/
structure Lowered (f : Flow) (p : Plan) : Prop where
  nonempty : f.workflow.steps ≠ []
  checked : checkSteps f.name [] f.workflow.allSteps = .ok ()
  resolved : ∀ t ∈ f.sites, f.Resolved t
  plan_eq : p =
    { id := f.name.text
      name := f.name.name
      kind := .flow
      start := beginId
      steps := Plan.stepsOf f.instructions
      outputs := f.outputs
      results := f.workflow.results }

/-- The check of the steps passes exactly when no loops contradict each other and no name comes twice. -/
theorem checkSteps_eq_ok {flow : QualifiedName} {seen : List String} {ss : List Step} :
    checkSteps flow seen ss = .ok () ↔
      (∀ s ∈ ss, s.loopProblem? = none) ∧ (ss.map Step.name).Nodup ∧ ∀ s ∈ ss, s.name ∉ seen := by
  induction ss generalizing seen with
  | nil => simp [checkSteps]
  | cons s r ih =>
    have hloops : s.checkLoops flow = .ok () ↔ s.loopProblem? = none := by
      unfold Step.checkLoops
      cases s.loopProblem? <;> simp
    by_cases hp : s.loopProblem? = none
    · have hc := hloops.2 hp
      by_cases hseen : s.name ∈ seen
      · simp [checkSteps, hc, hseen, bind, Except.bind, throw, throwThe, MonadExceptOf.throw]
      · have hstep : checkSteps flow seen (s :: r) = checkSteps flow (s.name :: seen) r := by
          simp [checkSteps, hc, hseen, bind, Except.bind]
        rw [hstep, ih]
        simp only [List.mem_cons, not_or, List.map_cons, List.nodup_cons, List.mem_map, not_exists,
          not_and, forall_eq_or_imp, hp, hseen, not_false_eq_true, true_and]
        constructor
        · rintro ⟨hall, hnodup, hnew⟩
          exact ⟨hall, ⟨fun x hx => (hnew x hx).1, hnodup⟩, fun x hx => (hnew x hx).2⟩
        · rintro ⟨hall, ⟨hfirst, hnodup⟩, hnew⟩
          exact ⟨hall, hnodup, fun x hx => ⟨hfirst x hx, hnew x hx⟩⟩
    · have hc : s.checkLoops flow ≠ .ok () := fun h => hp (hloops.1 h)
      constructor
      · intro h
        obtain ⟨⟨⟩, hok, -⟩ := bind_eq_ok.1 h
        exact absurd hok hc
      · rintro ⟨hall, -⟩
        exact absurd (hall s (by simp)) hp

theorem Lowered.nodup_names {f : Flow} {p : Plan} (h : f.Lowered p) :
    (f.workflow.allSteps.map Step.name).Nodup :=
  (checkSteps_eq_ok.1 h.checked).2.1

/-- The site of the failure handler. -/
theorem handler_mem_sites {f : Flow} {h : Step} (hh : f.workflow.onFailure = some h) :
    ⟨idAfter 2 f.workflow.steps, h, none, true⟩ ∈ f.sites := by
  apply List.mem_append_right
  rw [hh]
  exact List.mem_singleton.2 rfl

theorem lowerHandler_ok {f : Flow} {h : Step} {is : List Instruction}
    (hnames : (f.workflow.allSteps.map Step.name).Nodup) (hh : f.workflow.onFailure = some h)
    (hl : f.lowerHandler = .ok is) :
    f.Resolved ⟨idAfter 2 f.workflow.steps, h, none, true⟩ ∧
      is = f.blockAt ⟨idAfter 2 f.workflow.steps, h, none, true⟩ := by
  rw [lowerHandler, hh] at hl
  exact lowerStep_ok (entryId_site hnames (handler_mem_sites hh)) rfl hl

/-- The begin instruction leads to the block of the first step. -/
theorem entryId_first {f : Flow} (hnames : (f.workflow.allSteps.map Step.name).Nodup) {first : Step}
    {r : List Step} (hsteps : f.workflow.steps = first :: r) : f.entryId first.name = 2 := by
  have hmem : ⟨2, first, if r.isEmpty then none else some (2 + first.width), false⟩ ∈ f.sites := by
    apply List.mem_append_left
    rw [hsteps, regularSites]
    exact List.mem_cons_self
  exact entryId_site hnames hmem

theorem lowered_of_plan {f : Flow} {p : Plan} (h : f.plan = .ok p) : f.Lowered p := by
  unfold plan at h
  split at h
  · cases h
  · rename_i first r hsteps
    obtain ⟨⟨⟩, hcheck, h⟩ := bind_eq_ok.1 h
    obtain ⟨is, hregular, h⟩ := bind_eq_ok.1 h
    obtain ⟨js, hhandler, h⟩ := bind_eq_ok.1 h
    obtain rfl := Except.ok.inj h
    have hnames := (checkSteps_eq_ok.1 hcheck).2.1
    have hids : ∀ t ∈ regularSites 2 f.workflow.steps, f.entryId t.step.name = t.id :=
      fun t ht => entryId_site hnames (List.mem_append_left _ ht)
    obtain ⟨hres, rfl⟩ := lowerRegular_ok hids hregular
    rw [entryId_first hnames hsteps]
    cases hh : f.workflow.onFailure with
    | none =>
      have hjs : js = [] := by
        rw [lowerHandler, hh] at hhandler
        exact (Except.ok.inj hhandler).symm
      refine ⟨by simp [hsteps], hcheck, ?_, ?_⟩
      · simpa [sites, hh] using hres
      · simp [instructions, sites, hh, hjs]
    | some step =>
      obtain ⟨hlast, rfl⟩ := lowerHandler_ok hnames hh hhandler
      refine ⟨by simp [hsteps], hcheck, ?_, ?_⟩
      · intro t ht
        simp only [sites, hh, Option.toList_some, List.map_cons, List.map_nil, List.mem_append,
          List.mem_singleton] at ht
        rcases ht with ht | rfl
        · exact hres t ht
        · exact hlast
      · simp [instructions, sites, hh]

/-- `n` ids in a row. -/
def idRange (id : StepId) (n : Nat) : List StepId := (List.range n).map fun (k : Nat) => id + k

theorem idRange_add (id : StepId) (m n : Nat) :
    idRange id (m + n) = idRange id m ++ idRange (id + m) n := by
  simp only [idRange, List.range_add, List.map_append, List.map_map, List.append_cancel_left_eq]
  apply List.map_congr_left
  intro k _
  simp [Int.add_assoc]

theorem pairwise_idRange (id : StepId) (n : Nat) : (idRange id n).Pairwise (· < ·) := by
  rw [idRange, List.pairwise_map]
  refine List.pairwise_lt_range.imp ?_
  intro a b hab
  exact Int.add_lt_add_left (Int.ofNat_lt.2 hab) id

/-- How many ids the blocks of a list of steps take. -/
def span : List Step → Nat
  | [] => 0
  | s :: r => s.width.toNat + span r

theorem ids_block (s : Step) (id : StepId) (navigation : Navigation) :
    (block s id navigation).map Instruction.id = idRange id s.width.toNat := by
  unfold block Step.width
  cases s.parallelLoop with
  | none => simp [idRange]
  | some loop => simp [idRange, List.range_succ]

theorem ids_placed (id : StepId) (ss : List Step) :
    ((placed id ss).flatMap fun p => idRange p.1 p.2.width.toNat) = idRange id (span ss) := by
  induction ss generalizing id with
  | nil => rfl
  | cons s r ih =>
    rw [placed, List.flatMap_cons, ih, span, idRange_add, Step.toNat_width]

/-- The ids of a flow's instructions are 1, 2 and so on without a gap. -/
theorem ids_instructions (f : Flow) :
    f.instructions.map Instruction.id = idRange 1 (1 + span f.workflow.allSteps) := by
  have hblocks : (f.sites.flatMap f.blockAt).map Instruction.id =
      idRange 2 (span f.workflow.allSteps) := by
    rw [← ids_placed, placed_eq_sites, List.map_flatMap, List.flatMap_map]
    congr 1
    funext t
    exact ids_block t.step t.id (f.navigationAt t)
  rw [instructions, List.map_cons, hblocks, idRange_add]
  rfl

end Flow

/-- Instructions in the order of their ids are stored as they come. -/
theorem Plan.entries_stepsOf {is : List Instruction}
    (h : (is.map Instruction.id).Pairwise (· < ·)) :
    (Plan.stepsOf is).entries = is.map fun i => (i.id, i) := by
  apply SortedMap.entries_ofList
  rw [List.pairwise_map] at h ⊢
  exact h

/-- Every instruction is stored under its own id. -/
def Plan.Keyed (p : Plan) : Prop := ∀ e ∈ p.steps.entries, e.1 = e.2.id

theorem Plan.keyed_of_entries {is : List Instruction} {p : Plan}
    (h : p.steps.entries = is.map fun i => (i.id, i)) : p.Keyed := by
  intro e he
  rw [h] at he
  obtain ⟨i, -, rfl⟩ := List.mem_map.1 he
  rfl

theorem Plan.instructions_of_entries {is : List Instruction} {p : Plan}
    (h : p.steps.entries = is.map fun i => (i.id, i)) : p.instructions = is := by
  rw [Plan.instructions, SortedMap.values, h, List.map_map]
  exact List.map_id is

theorem Operation.entries_plan (op : Operation) : op.plan.steps.entries =
    [⟨1, op.name.name, .operationBegin op.inputs 2⟩, ⟨2, op.name.name, .runAction op.action 3⟩,
      ⟨3, op.name.name, .operationEnd op.outputs op.results⟩].map fun i => (i.id, i) :=
  Plan.entries_stepsOf (by simp)

theorem Plan.entries_ofBranch (q : QualifiedName) : (Plan.ofBranch q).steps.entries =
    [⟨1, q.name, .bodyBegin q 2⟩, ⟨2, q.name, .bodyEnd q⟩].map fun i => (i.id, i) :=
  Plan.entries_stepsOf (by simp)

namespace Flow

namespace Lowered

variable {f : Flow} {p : Plan}

theorem entries_eq (h : f.Lowered p) : p.steps.entries = f.instructions.map fun i => (i.id, i) := by
  rw [h.plan_eq]
  apply Plan.entries_stepsOf
  rw [ids_instructions]
  exact pairwise_idRange 1 _

/-- The instruction under an id is the one that was made for it. -/
theorem step?_iff (h : f.Lowered p) (id : StepId) (i : Instruction) :
    p.step? id = some i ↔ i ∈ f.instructions ∧ i.id = id := by
  rw [Plan.step?, SortedMap.get?_iff_mem, h.entries_eq, List.mem_map]
  constructor
  · rintro ⟨j, hj, he⟩
    obtain ⟨rfl, rfl⟩ := Prod.mk.inj he
    exact ⟨hj, rfl⟩
  · rintro ⟨hi, rfl⟩
    exact ⟨i, hi, rfl⟩

/-- The block of a site is in the plan. -/
theorem step?_block (h : f.Lowered p) {t : Site} (ht : t ∈ f.sites) {i : Instruction}
    (hi : i ∈ f.blockAt t) : p.step? i.id = some i := by
  rw [h.step?_iff]
  refine ⟨?_, rfl⟩
  exact List.mem_cons_of_mem _ (List.mem_flatMap.2 ⟨t, ht, hi⟩)

end Lowered

theorem resolve_eq_ok {f : Flow} {s : Step} {fromHandler : Bool} {result target : String} {j : Jump} :
    f.resolve s fromHandler result target = .ok j ↔ f.resolve? fromHandler target = some j := by
  unfold resolve
  cases f.resolve? fromHandler target <;> simp

/-- Declared targets are resolved and entered under their results; other results keep their jumps. -/
theorem get?_declaredJumps {f : Flow} {s : Step} {fromHandler : Bool} {es : List (String × String)}
    {n m : Navigation} (hes : (es.map Prod.fst).Nodup)
    (h : f.declaredJumps s fromHandler es n = .ok m) :
    (∀ e ∈ es, ∃ j, f.resolve? fromHandler e.2 = some j ∧ m.get? e.1 = some j) ∧
      ∀ r, r ∉ es.map Prod.fst → m.get? r = n.get? r := by
  induction es generalizing n with
  | nil =>
    obtain rfl := Except.ok.inj h
    simp
  | cons e es ih =>
    obtain ⟨result, target⟩ := e
    rw [List.map_cons, List.nodup_cons] at hes
    obtain ⟨j, hj, h⟩ := bind_eq_ok.1 h
    obtain ⟨hdeclared, hother⟩ := ih hes.2 h
    constructor
    · intro e he
      rcases List.mem_cons.1 he with rfl | he
      · refine ⟨j, resolve_eq_ok.1 hj, ?_⟩
        rw [hother result hes.1]
        simp
      · exact hdeclared e he
    · intro r hr
      simp only [List.map_cons, List.mem_cons, not_or] at hr
      rw [hother r hr.2]
      simp [hr.1]

/-- Where success leads by default. -/
def successJump? (f : Flow) (t : Site) : Option Jump :=
  match t.next with
  | some id => some (.toStep id)
  | none => f.resolve? t.isHandler (if t.isHandler then failure else success)

/-- How a site answers a result: by the declared target, else by the default for success and failure. -/
def jump? (f : Flow) (t : Site) (result : String) : Option Jump :=
  match t.step.navigation.get? result with
  | some target => f.resolve? t.isHandler target
  | none =>
    if result = success then f.successJump? t
    else if result = failure then f.resolve? t.isHandler failure
    else none

theorem defaultSuccess_eq_ok {f : Flow} {t : Site} {j : Jump} :
    f.defaultSuccess t.step t.next t.isHandler = .ok j ↔ f.successJump? t = some j := by
  unfold defaultSuccess successJump?
  cases t.next with
  | none => exact resolve_eq_ok
  | some id => simp

/-- Makes an entry only when its key is missing. -/
def addMissing (key : String) (x : Except CompileError Jump) (n : Navigation) :
    Except CompileError Navigation :=
  if n.contains key then .ok n else x >>= fun j => .ok (n.insert key j)

theorem navigationOf_eq (f : Flow) (s : Step) (next : Option StepId) (fromHandler : Bool) :
    f.navigationOf s next fromHandler =
      f.declaredJumps s fromHandler s.navigation.entries .empty >>= fun n =>
        addMissing success (f.defaultSuccess s next fromHandler) n >>=
          addMissing failure (f.resolve s fromHandler failure failure) := by
  unfold navigationOf
  congr 1
  funext n
  by_cases h : n.contains success = true
  · rw [if_pos h, addMissing, if_pos h]
    rfl
  · rw [if_neg h, addMissing, if_neg h, bind_assoc]
    rfl

theorem get?_addMissing {n m : Navigation} {key : String} {x : Except CompileError Jump}
    (h : addMissing key x n = .ok m) :
    (∀ r, r ≠ key → m.get? r = n.get? r) ∧
      (∀ j, n.get? key = some j → m.get? key = some j) ∧
      (n.get? key = none → ∃ j, x = .ok j ∧ m.get? key = some j) := by
  cases hn : n.get? key with
  | some j =>
    have hc : n.contains key = true := by simp [OrderedMap.contains, hn]
    rw [addMissing, hc, if_pos rfl] at h
    obtain rfl := Except.ok.inj h
    exact ⟨fun _ _ => rfl, fun _ hj => hn.trans hj, by simp⟩
  | none =>
    have hc : n.contains key = false := by simp [OrderedMap.contains, hn]
    rw [addMissing, hc, if_neg (by simp)] at h
    obtain ⟨j, hj, h⟩ := bind_eq_ok.1 h
    obtain rfl := Except.ok.inj h
    refine ⟨?_, by simp, fun _ => ⟨j, hj, by simp⟩⟩
    intro r hr
    simp [hr]

/-- The declared part of a site's navigation: a declared target is always resolved. -/
theorem get?_declared {f : Flow} {t : Site} {n : Navigation}
    (h : f.declaredJumps t.step t.isHandler t.step.navigation.entries .empty = .ok n) (r : String) :
    (t.step.navigation.get? r = none → n.get? r = none) ∧
      ∀ target, t.step.navigation.get? r = some target →
        ∃ j, f.resolve? t.isHandler target = some j ∧ n.get? r = some j := by
  obtain ⟨hdeclared, hother⟩ := get?_declaredJumps t.step.navigation.distinct h
  constructor
  · intro hr
    rw [hother r]
    · rfl
    · intro hmem
      obtain ⟨e, he, rfl⟩ := List.mem_map.1 hmem
      rw [(OrderedMap.get?_iff_mem _ e.1 e.2).2 he] at hr
      simp at hr
  · intro target hr
    exact hdeclared (r, target) ((OrderedMap.get?_iff_mem _ r target).1 hr)

/-- A site whose targets can be resolved answers every declared result, success and failure. -/
theorem get?_navigationAt {f : Flow} {t : Site} (h : f.Resolved t) (r : String) :
    (f.navigationAt t).get? r = f.jump? t r ∧
      ((t.step.navigation.get? r).isSome ∨ r = success ∨ r = failure → (f.jump? t r).isSome) := by
  rw [Resolved, navigationOf_eq] at h
  obtain ⟨n₁, h₁, h⟩ := bind_eq_ok.1 h
  obtain ⟨n₂, h₂, h₃⟩ := bind_eq_ok.1 h
  obtain ⟨hnone, hsome⟩ := get?_declared h₁ r
  obtain ⟨hkeep₂, hold₂, hnew₂⟩ := get?_addMissing h₂
  obtain ⟨hkeep₃, hold₃, hnew₃⟩ := get?_addMissing h₃
  have hne : failure ≠ success := by decide
  unfold jump?
  cases hr : t.step.navigation.get? r with
  | some target =>
    obtain ⟨j, hj, hn⟩ := hsome target hr
    have hn₂ : n₂.get? r = some j := by
      by_cases hs : r = success
      · subst hs
        exact hold₂ j hn
      · rw [hkeep₂ r hs, hn]
    have hn₃ : (f.navigationAt t).get? r = some j := by
      by_cases hf : r = failure
      · subst hf
        exact hold₃ j hn₂
      · rw [hkeep₃ r hf, hn₂]
    simp [hn₃, hj]
  | none =>
    by_cases hs : r = success
    · subst hs
      obtain ⟨j, hj, hn₂⟩ := hnew₂ (hnone hr)
      have hj := defaultSuccess_eq_ok.1 hj
      simp [hkeep₃ success hne.symm, hn₂, hj]
    · by_cases hf : r = failure
      · subst hf
        have hn₂ : n₂.get? failure = none := by rw [hkeep₂ failure hne, hnone hr]
        obtain ⟨j, hj, hn₃⟩ := hnew₃ hn₂
        have hj := resolve_eq_ok.1 hj
        simp [hn₃, hne, hj]
      · simp [hkeep₃ r hf, hkeep₂ r hs, hnone hr, hs, hf]

/-- The ways in which lowering a flow fails. Each names the flow and, if it has any, one of its steps. -/
inductive Fault (f : Flow) : CompileError → Prop where
  | noSteps (h : f.workflow.steps = []) :
      Fault f (.invalidSource f.name.text ["flow has no steps"])
  | repeatedName {s : Step} (hs : s ∈ f.workflow.allSteps) :
      Fault f (.invalidSource f.name.text ["duplicate step name '" ++ s.name ++ "'"])
  | loops {s : Step} {problem : LoopProblem} (hs : s ∈ f.workflow.allSteps)
      (hp : s.loopProblem? = some problem) : Fault f (.invalidLoop f.name.text s.name problem)
  | target {s : Step} {fromHandler : Bool} {result target : String}
      (hs : s ∈ f.workflow.allSteps) (ht : f.resolve? fromHandler target = none) :
      Fault f (.unresolvedNavigation f.name.text s.name result target)

theorem fault_of_checkSteps {f : Flow} {seen : List String} {ss : List Step} {err : CompileError}
    (hss : ∀ s ∈ ss, s ∈ f.workflow.allSteps) (h : checkSteps f.name seen ss = .error err) :
    f.Fault err := by
  induction ss generalizing seen with
  | nil => simp [checkSteps] at h
  | cons s r ih =>
    have hs := hss s (by simp)
    rcases bind_eq_error.1 h with h | ⟨⟨⟩, -, h⟩
    · unfold Step.checkLoops at h
      split at h
      · rename_i problem hp
        obtain rfl := Except.error.inj h
        exact .loops hs hp
      · cases h
    · split at h
      · obtain rfl := Except.error.inj h
        exact .repeatedName hs
      · exact ih (fun x hx => hss x (by simp [hx])) h

theorem fault_of_resolve {f : Flow} {s : Step} {fromHandler : Bool} {result target : String}
    {err : CompileError} (hs : s ∈ f.workflow.allSteps)
    (h : f.resolve s fromHandler result target = .error err) : f.Fault err := by
  unfold resolve at h
  split at h
  · cases h
  · rename_i ht
    obtain rfl := Except.error.inj h
    exact .target hs ht

theorem fault_of_declaredJumps {f : Flow} {s : Step} {fromHandler : Bool}
    {es : List (String × String)} {n : Navigation} {err : CompileError}
    (hs : s ∈ f.workflow.allSteps) (h : f.declaredJumps s fromHandler es n = .error err) :
    f.Fault err := by
  induction es generalizing n with
  | nil => simp [declaredJumps] at h
  | cons e r ih =>
    rcases bind_eq_error.1 h with h | ⟨j, -, h⟩
    · exact fault_of_resolve hs h
    · exact ih h

theorem addMissing_eq_error {key : String} {x : Except CompileError Jump} {n : Navigation}
    {err : CompileError} (h : addMissing key x n = .error err) : x = .error err := by
  unfold addMissing at h
  split at h
  · cases h
  · rcases bind_eq_error.1 h with h | ⟨j, -, h⟩
    · exact h
    · cases h

theorem fault_of_lowerStep {f : Flow} {s : Step} {hasSuccessor fromHandler : Bool} {err : CompileError}
    (hs : s ∈ f.workflow.allSteps) (h : f.lowerStep s hasSuccessor fromHandler = .error err) :
    f.Fault err := by
  rcases bind_eq_error.1 h with h | ⟨n, -, h⟩
  · rw [navigationOf_eq] at h
    rcases bind_eq_error.1 h with h | ⟨n₁, -, h⟩
    · exact fault_of_declaredJumps hs h
    · rcases bind_eq_error.1 h with h | ⟨n₂, -, h⟩
      · have hx := addMissing_eq_error h
        unfold defaultSuccess at hx
        split at hx
        · cases hx
        · exact fault_of_resolve hs hx
      · exact fault_of_resolve hs (addMissing_eq_error h)
  · cases h

theorem fault_of_lowerRegular {f : Flow} {ss : List Step} {err : CompileError}
    (hss : ∀ s ∈ ss, s ∈ f.workflow.allSteps) (h : f.lowerRegular ss = .error err) : f.Fault err := by
  induction ss with
  | nil => simp [lowerRegular] at h
  | cons s r ih =>
    rcases bind_eq_error.1 h with h | ⟨is, -, h⟩
    · exact fault_of_lowerStep (hss s (by simp)) h
    · rcases bind_eq_error.1 h with h | ⟨js, -, h⟩
      · exact ih (fun x hx => hss x (by simp [hx])) h
      · cases h

theorem fault_of_plan {f : Flow} {err : CompileError} (h : f.plan = .error err) : f.Fault err := by
  unfold plan at h
  split at h
  · rename_i hsteps
    obtain rfl := Except.error.inj h
    exact .noSteps hsteps
  · rcases bind_eq_error.1 h with h | ⟨⟨⟩, -, h⟩
    · exact fault_of_checkSteps (fun _ hs => hs) h
    · rcases bind_eq_error.1 h with h | ⟨is, -, h⟩
      · exact fault_of_lowerRegular (fun s hs => List.mem_append_left _ hs) h
      · rcases bind_eq_error.1 h with h | ⟨js, -, h⟩
        · unfold lowerHandler at h
          split at h
          · cases h
          · rename_i s hs
            exact fault_of_lowerStep (by simp [Workflow.allSteps, hs]) h
        · cases h

end Flow

end WorkflowCompiler
