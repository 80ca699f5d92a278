import WorkflowCompiler.Proofs.Lowering

/-!
Lowering keeps the control flow. A walk follows the steps of a workflow by the results of their invocations; a
run follows the instructions of a plan by the same results. For every flow that can be lowered and every
sequence of results the run passes through the blocks of exactly the steps that the walk visits, and
both end in the same way.
-/

namespace WorkflowCompiler

/-- How a walk or a run stands when no more results are used. -/
inductive Ending where
  /-- All results are used, and another one can follow. -/
  | waiting
  | completed (result : String)
  /-- There is no answer to a result. -/
  | stuck
  deriving DecidableEq, Repr

/-- A step of a workflow: a regular one by its position, or the failure handler. -/
inductive Place where
  | regular (i : Nat)
  | handler
  deriving DecidableEq, Repr

/-- Where a result leads: to a step, or to a name that is still to be looked up. -/
inductive Target where
  | place (p : Place)
  | name (n : String)
  deriving DecidableEq, Repr

inductive Move where
  | goTo (p : Place)
  | finish (result : String)
  | halt
  deriving DecidableEq, Repr

namespace Workflow

def stepAt? (w : Workflow) : Place → Option Step
  | .regular i => w.steps[i]?
  | .handler => w.onFailure

def placeOf? (w : Workflow) (name : String) : Option Place :=
  match w.steps.findIdx? fun s => s.name == name with
  | some i => some (.regular i)
  | none => if w.onFailure.any fun h => h.name == name then some .handler else none

/-- The declared target; else success leads to the next regular step, from the last one to success and from the
failure handler to failure, and failure leads to failure. -/
def target? (w : Workflow) (p : Place) (s : Step) (result : String) : Option Target :=
  match s.navigation.get? result with
  | some name => some (.name name)
  | none =>
    if result = success then
      match p with
      | .regular i =>
        if i + 1 < w.steps.length then some (.place (.regular (i + 1))) else some (.name success)
      | .handler => some (.name failure)
    else if result = failure then some (.name failure)
    else none

/-- A name is that of a step, or failure on the way to the failure handler, or the result of the flow. -/
def follow (w : Workflow) (p : Place) (name : String) : Move :=
  match w.placeOf? name with
  | some q => .goTo q
  | none =>
    if name = failure ∧ p ≠ .handler ∧ w.onFailure.isSome then .goTo .handler else .finish name

def move (w : Workflow) (p : Place) (result : String) : Move :=
  match w.stepAt? p with
  | none => .halt
  | some s =>
    match w.target? p s result with
    | none => .halt
    | some (.place q) => .goTo q
    | some (.name name) => w.follow p name

/-- The steps visited from a place on, and the ending. -/
def walkFrom (w : Workflow) : Place → List String → List Place × Ending
  | p, [] => ([p], .waiting)
  | p, r :: rs =>
    match w.move p r with
    | .goTo q => (p :: (w.walkFrom q rs).1, (w.walkFrom q rs).2)
    | .finish result => ([p], .completed result)
    | .halt => ([p], .stuck)

/-- The walk begins at the first regular step. -/
def walk (w : Workflow) (results : List String) : List Place × Ending :=
  w.walkFrom (.regular 0) results

/-- The first id of the block of a step: all earlier blocks come before it. -/
def entry (w : Workflow) : Place → StepId
  | .regular i => Flow.idAfter 2 (w.steps.take i)
  | .handler => Flow.idAfter 2 w.steps

/-- The ids that a run passes in the block of a step: the first one and, after a split, the join. -/
def passed (w : Workflow) (p : Place) : List StepId :=
  match w.stepAt? p with
  | none => []
  | some s => if s.parallelLoop.isSome then [w.entry p, w.entry p + 3] else [w.entry p]

end Workflow

namespace Plan

/-- Control that enters at an id passes through the listed ids, and then a result is looked up. The begin
instruction hands on; a split leads to its join, once all branches are complete. -/
inductive Enters (p : Plan) : StepId → List StepId → Navigation → Prop where
  | wait {id : StepId} {i : Instruction} {n : Navigation} (hi : p.step? id = some i)
      (hn : i.navigation? = some n) : Enters p id [id] n
  | begin {id next : StepId} {i : Instruction} {inputs : List Input} {ids : List StepId}
      {n : Navigation} (hi : p.step? id = some i) (ht : i.task = .flowBegin inputs next)
      (h : Enters p next ids n) : Enters p id (id :: ids) n
  | split {id next : StepId} {i j : Instruction} {loop : ParallelLoop} {branch : String}
      {order order' : BranchOrder} {aggregate : List Output} {n : Navigation}
      (hi : p.step? id = some i) (ht : i.task = .split loop branch order next)
      (hj : p.step? (id + 3) = some j) (hjoin : j.task = .join aggregate order' n) :
      Enters p id [id, id + 3] n

/-- A run from an id on: the results that are looked up, the ids that are passed, and the ending. -/
inductive Run (p : Plan) : StepId → List String → List StepId → Ending → Prop where
  | waiting {id : StepId} {ids : List StepId} {n : Navigation} (he : p.Enters id ids n) :
      Run p id [] ids .waiting
  | stuck {id : StepId} {ids : List StepId} {n : Navigation} {r : String} {rs : List String}
      (he : p.Enters id ids n) (hn : n.get? r = none) : Run p id (r :: rs) ids .stuck
  | completed {id : StepId} {ids : List StepId} {n : Navigation} {r result : String}
      {rs : List String} {j : Jump} (he : p.Enters id ids n) (hn : n.get? r = some j)
      (hj : j.isTerminal = true) (hr : j.preset = some result) :
      Run p id (r :: rs) ids (.completed result)
  | next {id : StepId} {ids ids' : List StepId} {n : Navigation} {r : String} {rs : List String}
      {j : Jump} {ending : Ending} (he : p.Enters id ids n) (hn : n.get? r = some j)
      (hj : j.isTerminal = false) (h : Run p j.next rs ids' ending) :
      Run p id (r :: rs) (ids ++ ids') ending

theorem Enters.unique {p : Plan} {id : StepId} {ids ids' : List StepId} {n n' : Navigation}
    (h : p.Enters id ids n) (h' : p.Enters id ids' n') : ids = ids' ∧ n = n' := by
  induction h generalizing ids' n' with
  | wait hi hn =>
    cases h' with
    | wait hi' hn' =>
      rw [hi] at hi'
      obtain rfl := Option.some.inj hi'
      rw [hn] at hn'
      exact ⟨rfl, Option.some.inj hn'⟩
    | begin hi' ht' _ =>
      rw [hi] at hi'
      obtain rfl := Option.some.inj hi'
      simp [Instruction.navigation?, ht'] at hn
    | split hi' ht' _ _ =>
      rw [hi] at hi'
      obtain rfl := Option.some.inj hi'
      simp [Instruction.navigation?, ht'] at hn
  | begin hi ht _ ih =>
    cases h' with
    | wait hi' hn' =>
      rw [hi] at hi'
      obtain rfl := Option.some.inj hi'
      simp [Instruction.navigation?, ht] at hn'
    | begin hi' ht' h' =>
      rw [hi] at hi'
      obtain rfl := Option.some.inj hi'
      rw [ht] at ht'
      obtain ⟨-, rfl⟩ := Task.flowBegin.inj ht'
      obtain ⟨rfl, rfl⟩ := ih h'
      exact ⟨rfl, rfl⟩
    | split hi' ht' _ _ =>
      rw [hi] at hi'
      obtain rfl := Option.some.inj hi'
      simp [ht] at ht'
  | split hi ht hj hjoin =>
    cases h' with
    | wait hi' hn' =>
      rw [hi] at hi'
      obtain rfl := Option.some.inj hi'
      simp [Instruction.navigation?, ht] at hn'
    | begin hi' ht' _ =>
      rw [hi] at hi'
      obtain rfl := Option.some.inj hi'
      simp [ht] at ht'
    | split _ _ hj' hjoin' =>
      rw [hj] at hj'
      obtain rfl := Option.some.inj hj'
      rw [hjoin] at hjoin'
      exact ⟨rfl, (Task.join.inj hjoin').2.2⟩

/-- The results alone decide which ids a run passes and how it ends. -/
theorem Run.unique {p : Plan} {id : StepId} {rs : List String} {ids ids' : List StepId}
    {ending ending' : Ending} (h : p.Run id rs ids ending) (h' : p.Run id rs ids' ending') :
    ids = ids' ∧ ending = ending' := by
  induction h generalizing ids' ending' with
  | waiting he =>
    cases h' with
    | waiting he' => exact ⟨(he.unique he').1, rfl⟩
  | stuck he hn =>
    cases h' with
    | stuck he' _ => exact ⟨(he.unique he').1, rfl⟩
    | completed he' hn' _ _ =>
      rw [(he.unique he').2, hn'] at hn
      cases hn
    | next he' hn' _ _ =>
      rw [(he.unique he').2, hn'] at hn
      cases hn
  | completed he hn hj hr =>
    cases h' with
    | stuck he' hn' =>
      rw [(he.unique he').2, hn'] at hn
      cases hn
    | completed he' hn' _ hr' =>
      rw [(he.unique he').2, hn'] at hn
      obtain rfl := Option.some.inj hn
      rw [hr] at hr'
      exact ⟨(he.unique he').1, by rw [Option.some.inj hr']⟩
    | next he' hn' hj' _ =>
      rw [(he.unique he').2, hn'] at hn
      obtain rfl := Option.some.inj hn
      rw [hj] at hj'
      cases hj'
  | next he hn hj _ ih =>
    cases h' with
    | stuck he' hn' =>
      rw [(he.unique he').2, hn'] at hn
      cases hn
    | completed he' hn' hj' _ =>
      rw [(he.unique he').2, hn'] at hn
      obtain rfl := Option.some.inj hn
      rw [hj] at hj'
      cases hj'
    | next he' hn' _ h' =>
      rw [(he.unique he').2, hn'] at hn
      obtain rfl := Option.some.inj hn
      obtain ⟨rfl, rfl⟩ := ih h'
      exact ⟨by rw [(he.unique he').1], rfl⟩

theorem Run.begin {p : Plan} {id next : StepId} {i : Instruction} {inputs : List Input}
    {rs : List String} {ids : List StepId} {ending : Ending} (hi : p.step? id = some i)
    (ht : i.task = .flowBegin inputs next) (h : p.Run next rs ids ending) :
    p.Run id rs (id :: ids) ending := by
  cases h with
  | waiting he => exact .waiting (.begin hi ht he)
  | stuck he hn => exact .stuck (.begin hi ht he) hn
  | completed he hn hj hr => exact .completed (.begin hi ht he) hn hj hr
  | next he hn hj h => exact .next (.begin hi ht he) hn hj h

end Plan

namespace Workflow

theorem stepAt?_of_placeOf? {w : Workflow} {name : String} {p : Place}
    (h : w.placeOf? name = some p) : ∃ s, w.stepAt? p = some s ∧ s.name = name := by
  unfold placeOf? at h
  split at h
  · rename_i i hi
    obtain rfl := Option.some.inj h
    obtain ⟨hlt, hname, -⟩ := List.findIdx?_eq_some_iff_getElem.1 hi
    exact ⟨w.steps[i], List.getElem?_eq_getElem hlt, by simpa using hname⟩
  · split at h
    · rename_i hany
      obtain rfl := Option.some.inj h
      obtain ⟨s, hs, hname⟩ := (Option.any_eq_true _ _).1 hany
      exact ⟨s, hs, by simpa using hname⟩
    · simp at h

/-- A move leads to a step that is there. -/
theorem stepAt?_of_move {w : Workflow} {p q : Place} {r : String} (h : w.move p r = .goTo q) :
    ∃ s, w.stepAt? q = some s := by
  have hfollow {name : String} (h : w.follow p name = .goTo q) : ∃ s, w.stepAt? q = some s := by
    unfold follow at h
    split at h
    · rename_i hplace
      obtain rfl := Move.goTo.inj h
      obtain ⟨s, hs, -⟩ := stepAt?_of_placeOf? hplace
      exact ⟨s, hs⟩
    · split at h
      · rename_i hcond
        obtain rfl := Move.goTo.inj h
        exact Option.isSome_iff_exists.1 hcond.2.2
      · cases h
  unfold move at h
  split at h
  · cases h
  · rename_i s hs
    split at h
    · cases h
    · rename_i hplace
      obtain rfl := Move.goTo.inj h
      -- Only the default for success names a place, and there the next position is within the list.
      unfold target? at hplace
      split at hplace
      · cases hplace
      · split at hplace
        · split at hplace
          · split at hplace
            · rename_i hlt
              obtain rfl := Target.place.inj (Option.some.inj hplace)
              exact ⟨_, List.getElem?_eq_getElem hlt⟩
            · cases hplace
          · cases hplace
        · split at hplace <;> cases hplace
    · exact hfollow h

end Workflow

namespace Flow

theorem lookup_placed (id : StepId) (ss : List Step) (name : String) :
    ((placed id ss).map fun p => (p.2.name, p.1)).lookup name =
      (ss.findIdx? fun s => s.name == name).map fun i => idAfter id (ss.take i) := by
  induction ss generalizing id with
  | nil => rfl
  | cons s r ih =>
    rw [placed, List.map_cons, lookup_cons_if, List.findIdx?_cons, ih]
    by_cases h : name = s.name
    · simp [h, idAfter]
    · have hb : (s.name == name) = false := by simpa using fun hs => h hs.symm
      simp [h, hb, idAfter_cons, Option.map_map, Function.comp_def]

/-- The table of first ids holds the entry of the step with a name. -/
theorem entryId?_eq (f : Flow) (name : String) :
    f.entryId? name = (f.workflow.placeOf? name).map f.workflow.entry := by
  rw [entryId?, entryIds, Workflow.allSteps, placed_append, List.map_append, List.lookup_append,
    lookup_placed, Workflow.placeOf?]
  cases f.workflow.steps.findIdx? fun s => s.name == name with
  | some i => rfl
  | none =>
    cases f.workflow.onFailure with
    | none => rfl
    | some h =>
      by_cases hn : name = h.name
      · simp [placed, hn, Workflow.entry]
      · have hb : (h.name == name) = false := by simpa using fun hs => hn hs.symm
        simp [placed, lookup_cons_if, hn, hb]

/-- The site of a step at its place. -/
def siteAt (f : Flow) (p : Place) (s : Step) : Site where
  id := f.workflow.entry p
  step := s
  next :=
    match p with
    | .regular i =>
      if i + 1 < f.workflow.steps.length then some (f.workflow.entry (.regular (i + 1))) else none
    | .handler => none
  isHandler := p == .handler

theorem siteAt_mem {f : Flow} {p : Place} {s : Step} (h : f.workflow.stepAt? p = some s) :
    f.siteAt p s ∈ f.sites := by
  cases p with
  | regular i =>
    apply List.mem_append_left
    apply List.mem_of_getElem? (i := i)
    rw [getElem?_regularSites]
    simp only [Workflow.stepAt?] at h
    rw [h]
    rfl
  | handler =>
    apply List.mem_append_right
    simp only [Workflow.stepAt?] at h
    rw [h]
    exact List.mem_singleton.2 rfl

/-- The jump that a move becomes. -/
def jumpOf (f : Flow) : Move → Option Jump
  | .goTo p => some (.toStep (f.workflow.entry p))
  | .finish result => some (.toEnd result)
  | .halt => none

/-- With distinct names the failure handler is found under its name. -/
theorem placeOf?_handler {f : Flow} (hnames : (f.workflow.allSteps.map Step.name).Nodup) {h : Step}
    (hh : f.workflow.onFailure = some h) : f.workflow.placeOf? h.name = some .handler := by
  have hnew : (f.workflow.steps.findIdx? fun s => s.name == h.name) = none := by
    rw [List.findIdx?_eq_none_iff]
    intro s hs
    rw [Workflow.allSteps, hh, List.map_append, List.nodup_append] at hnames
    have hne := hnames.2.2 s.name (List.mem_map_of_mem hs) h.name (by simp)
    simpa using hne
  rw [Workflow.placeOf?, hnew, hh]
  simp

/-- A target that can be resolved is resolved as the walk follows it. -/
theorem resolve?_follow {f : Flow} (hnames : (f.workflow.allSteps.map Step.name).Nodup) {p : Place}
    {name : String} {j : Jump} (h : f.resolve? (p == .handler) name = some j) :
    f.jumpOf (f.workflow.follow p name) = some j := by
  unfold resolve? at h
  unfold Workflow.follow
  rw [entryId?_eq] at h
  cases hplace : f.workflow.placeOf? name with
  | some q => simpa [hplace, jumpOf] using h
  | none =>
    simp only [hplace, Option.map_none] at h
    split at h
    · cases hh : f.workflow.onFailure with
      | none =>
        rw [hh] at h
        simpa [jumpOf] using h
      | some s =>
        have hentry : f.entryId? s.name = some (f.workflow.entry .handler) := by
          rw [entryId?_eq, placeOf?_handler hnames hh]
          rfl
        simp only [hh, Option.bind_some, hentry] at h
        by_cases hcond : name = failure ∧ p ≠ .handler
        · simpa [hcond.1, hcond.2, jumpOf] using h
        · have hcond' : ¬ (name = failure ∧ (!(p == .handler)) = true) := by
            simpa using hcond
          rw [if_neg hcond'] at h
          rw [if_neg (fun hc => hcond ⟨hc.1, hc.2.1⟩)]
          simpa [jumpOf] using h
    · cases h

/-- A site answers each result by the jump that the move from its place becomes. -/
theorem jump?_eq_move {f : Flow} {p : Plan} (h : f.Lowered p) {q : Place} {s : Step}
    (hs : f.workflow.stepAt? q = some s) (r : String) :
    f.jump? (f.siteAt q s) r = f.jumpOf (f.workflow.move q r) := by
  have hsome := (get?_navigationAt (h.resolved _ (siteAt_mem hs)) r).2
  have hfollow {name : String}
      (hn : (f.resolve? (q == .handler) name).isSome = true) :
      f.resolve? (q == .handler) name = f.jumpOf (f.workflow.follow q name) := by
    obtain ⟨j, hj⟩ := Option.isSome_iff_exists.1 hn
    rw [hj, resolve?_follow h.nodup_names hj]
  have hstep : (f.siteAt q s).step = s := rfl
  unfold jump? at hsome ⊢
  simp only [Workflow.move, hs, Workflow.target?]
  cases hr : s.navigation.get? r with
  | some name =>
    simp only [hstep, hr] at hsome ⊢
    exact hfollow (hsome (.inl rfl))
  | none =>
    simp only [hstep, hr] at hsome ⊢
    by_cases hsucc : r = success
    · have hdefault := hsome (.inr (.inl hsucc))
      simp only [hsucc, if_true] at hdefault ⊢
      cases q with
      | regular i =>
        by_cases hlt : i + 1 < f.workflow.steps.length
        · simp [successJump?, siteAt, hlt, jumpOf]
        · simp only [successJump?, siteAt, hlt, if_false] at hdefault ⊢
          exact hfollow hdefault
      | handler => exact hfollow hdefault
    · by_cases hfail : r = failure
      · have hdefault := hsome (.inr (.inr hfail))
        simp only [if_neg hsucc, if_pos hfail] at hdefault ⊢
        exact hfollow hdefault
      · simp [hsucc, hfail, jumpOf]

theorem two_le_entry (w : Workflow) (p : Place) : 2 ≤ w.entry p := by
  cases p with
  | regular i => exact le_idAfter 2 _
  | handler => exact le_idAfter 2 _

theorem isTerminal_toStep_entry (w : Workflow) (p : Place) : (Jump.toStep (w.entry p)).isTerminal = false := by
  have hne : w.entry p ≠ 0 := Int.ne_of_gt (Int.lt_of_lt_of_le (by decide) (two_le_entry w p))
  simpa [Jump.isTerminal, Jump.toStep, terminalId] using hne

theorem Lowered.get?_navigation {f : Flow} {p : Plan} (h : f.Lowered p) {q : Place} {s : Step}
    (hs : f.workflow.stepAt? q = some s) (r : String) :
    (f.navigationAt (f.siteAt q s)).get? r = f.jumpOf (f.workflow.move q r) := by
  rw [(get?_navigationAt (h.resolved _ (siteAt_mem hs)) r).1, jump?_eq_move h hs]

/-- Entering the block of a step leads to its navigation. -/
theorem enters_block {f : Flow} {p : Plan} (h : f.Lowered p) {q : Place} {s : Step}
    (hs : f.workflow.stepAt? q = some s) :
    p.Enters (f.workflow.entry q) (f.workflow.passed q) (f.navigationAt (f.siteAt q s)) := by
  have hmem {i : Instruction} (hi : i ∈ f.blockAt (f.siteAt q s)) : p.step? i.id = some i :=
    h.step?_block (siteAt_mem hs) hi
  unfold blockAt block at hmem
  cases hl : s.parallelLoop with
  | none =>
    have hi := hmem (i := ⟨f.workflow.entry q, s.name, .invoke s.reference s.arguments s.loop s.publish
      (f.navigationAt (f.siteAt q s))⟩) (by simp [siteAt, hl])
    have hpassed : f.workflow.passed q = [f.workflow.entry q] := by
      simp [Workflow.passed, hs, hl]
    rw [hpassed]
    exact .wait hi rfl
  | some loop =>
    have hi := hmem (i := ⟨f.workflow.entry q, s.name, .split loop s.reference.branchKey .iterationIndex
      (f.workflow.entry q + 1)⟩) (by simp [siteAt, hl])
    have hj := hmem (i := ⟨f.workflow.entry q + 3, s.name, .join s.aggregate .iterationIndex
      (f.navigationAt (f.siteAt q s))⟩) (by simp [siteAt, hl])
    have hpassed : f.workflow.passed q = [f.workflow.entry q, f.workflow.entry q + 3] := by
      simp [Workflow.passed, hs, hl]
    rw [hpassed]
    exact .split hi rfl hj rfl

/-- From the entry of a step the run does what the walk does from there. -/
theorem run_walkFrom {f : Flow} {p : Plan} (h : f.Lowered p) (rs : List String) {q : Place} {s : Step}
    (hs : f.workflow.stepAt? q = some s) :
    p.Run (f.workflow.entry q) rs ((f.workflow.walkFrom q rs).1.flatMap f.workflow.passed)
      (f.workflow.walkFrom q rs).2 := by
  induction rs generalizing q s with
  | nil =>
    have he := enters_block h hs
    simpa [Workflow.walkFrom] using Plan.Run.waiting he
  | cons r rs ih =>
    have he := enters_block h hs
    have hn := h.get?_navigation hs r
    cases hm : f.workflow.move q r with
    | goTo q' =>
      rw [hm] at hn
      obtain ⟨s', hs'⟩ := Workflow.stepAt?_of_move hm
      have hne := isTerminal_toStep_entry f.workflow q'
      simpa [Workflow.walkFrom, hm] using Plan.Run.next he hn hne (ih hs')
    | finish result =>
      rw [hm] at hn
      have hrun : p.Run _ (r :: rs) _ (.completed result) := .completed he hn rfl rfl
      simpa [Workflow.walkFrom, hm] using hrun
    | halt =>
      rw [hm] at hn
      have hrun : p.Run _ (r :: rs) _ .stuck := .stuck he hn
      simpa [Workflow.walkFrom, hm] using hrun

/-- The first step of a flow that can be lowered. -/
theorem Lowered.stepAt?_first {f : Flow} {p : Plan} (h : f.Lowered p) :
    ∃ s, f.workflow.stepAt? (.regular 0) = some s := by
  cases hs : f.workflow.steps with
  | nil => exact absurd hs h.nonempty
  | cons s r => exact ⟨s, by simp [Workflow.stepAt?, hs]⟩

theorem Lowered.step?_begin {f : Flow} {p : Plan} (h : f.Lowered p) :
    p.step? beginId = some ⟨beginId, f.name.name, .flowBegin f.inputs 2⟩ := by
  rw [h.step?_iff]
  exact ⟨List.mem_cons_self, rfl⟩

/-- A flow that is lowered runs as its steps are walked: for every sequence of results there is one run of the
plan, it passes the begin instruction and the blocks of the visited steps in order, and it completes with the
same result, waits for another one or is stuck as the walk is. -/
theorem run_iff_walk {f : Flow} {p : Plan} (h : f.plan = .ok p) (results : List String)
    (ids : List StepId) (ending : Ending) :
    p.Run p.start results ids ending ↔
      ids = beginId :: (f.workflow.walk results).1.flatMap f.workflow.passed ∧
        ending = (f.workflow.walk results).2 := by
  have hl := lowered_of_plan h
  obtain ⟨s, hs⟩ := hl.stepAt?_first
  have hrun := Plan.Run.begin hl.step?_begin rfl (run_walkFrom hl results hs)
  have hstart : p.start = beginId := by rw [hl.plan_eq]
  rw [hstart]
  constructor
  · intro h'
    exact h'.unique hrun
  · rintro ⟨rfl, rfl⟩
    exact hrun

end Flow

/-- A parallel loop, then a step that goes back to it when it fails, and a failure handler. -/
def retryFlow : Flow where
  name := ⟨"app", "retry", by decide, by decide⟩
  inputs := []
  outputs := []
  workflow :=
    { steps := [
        { name := "fan", reference := ⟨"app", "work", by decide, by decide⟩, arguments := []
          loop := none, parallelLoop := some ⟨"x", "xs"⟩, publish := [], aggregate := []
          navigation := .empty, isAsync := true },
        { name := "check", reference := ⟨"app", "check", by decide, by decide⟩, arguments := []
          loop := none, parallelLoop := none, publish := [], aggregate := []
          navigation := .ofList [("FAILURE", "fan")], isAsync := false }]
      onFailure := some
        { name := "clean", reference := ⟨"app", "clean", by decide, by decide⟩, arguments := []
          loop := none, parallelLoop := none, publish := [], aggregate := []
          navigation := .empty, isAsync := false }
      results := ["SUCCESS", "FAILURE"] }

theorem retryFlow_run : ∃ p, retryFlow.plan = .ok p ∧
    p.Run p.start ["SUCCESS", "FAILURE", "FAILURE", "SUCCESS"] [1, 2, 5, 6, 2, 5, 7]
      (.completed "FAILURE") := by
  obtain ⟨p, hp⟩ : ∃ p, retryFlow.plan = .ok p := ⟨_, rfl⟩
  exact ⟨p, hp, (Flow.run_iff_walk hp _ _ _).2 ⟨by decide, by decide⟩⟩

end WorkflowCompiler
