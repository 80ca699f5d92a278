import Mathlib.Algebra.Ring.Int.Defs
import WorkflowCompiler.Proofs.ControlFlow

/-!
How the instructions of a lowered flow lie in its plan. The ids are 1, 2 and so on; after the begin instruction
come the blocks of the steps, each at the sum of the widths before it. A block is one instruction, or the four of a
parallel loop, and ends with a navigation that answers the declared results, success and failure.
-/

namespace WorkflowCompiler

/-- The results that a step answers: the declared ones in order, then success and failure unless declared. -/
def Step.answered (s : Step) : List String :=
  s.navigation.keys ++ [success, failure].filter fun r => r ∉ s.navigation.keys

/-- The plan holds the block of a step at an id, one instruction or the four of a parallel loop. -/
def Plan.HasBlock (p : Plan) (id : StepId) (s : Step) (navigation : Navigation) : Prop :=
  match s.parallelLoop with
  | none =>
    p.step? id = some ⟨id, s.name, .invoke s.reference s.arguments s.loop s.publish navigation⟩
  | some loop =>
    p.step? id =
        some ⟨id, s.name, .split loop ("branch:" ++ s.reference.text) .iterationIndex (id + 1)⟩ ∧
      p.step? (id + 1) =
        some ⟨id + 1, s.name, .branchBegin s.reference s.arguments (id + 2)⟩ ∧
      p.step? (id + 2) = some ⟨id + 2, s.name, .branchEnd s.reference s.publish⟩ ∧
      p.step? (id + 3) = some ⟨id + 3, s.name, .join s.aggregate .iterationIndex navigation⟩

namespace Flow

/-- The first id of the block of the `n`-th step: before it come the begin instruction and the blocks of the earlier
steps. -/
def blockStart (f : Flow) (n : Nat) : StepId :=
  2 + ((f.workflow.allSteps.take n).map Step.width).sum

/-- An id is in the block of a step with a parallel loop. -/
def InParallelBlock (f : Flow) (id : StepId) : Prop :=
  ∃ n s, f.workflow.allSteps[n]? = some s ∧ s.parallelLoop.isSome ∧
    f.blockStart n ≤ id ∧ id < f.blockStart n + s.width

/-- The plan is laid out as the steps of the flow say. -/
structure LaidOut (f : Flow) (p : Plan) : Prop where
  /-- The keys are 1, 2 and so on, one for the begin instruction and the others for the blocks. -/
  keys : p.steps.keys = idRange 1 (1 + (f.workflow.allSteps.map Step.width).sum).toNat
  keyed : p.Keyed
  begins : p.step? 1 = some ⟨1, f.name.name, .flowBegin f.inputs 2⟩
  blocks : ∀ (n : Nat) (s : Step), f.workflow.allSteps[n]? = some s →
    ∃ navigation, p.HasBlock (f.blockStart n) s navigation ∧ navigation.keys = s.answered ∧
      s.answered.Nodup
  async : ∀ i ∈ p.instructions, i.isAsync = true ↔ f.InParallelBlock i.id
  split : ∀ i ∈ p.instructions, i.isSplit = true ↔
    ∃ n s, f.workflow.allSteps[n]? = some s ∧ s.parallelLoop.isSome ∧ i.id = f.blockStart n

theorem idAfter_eq (id : StepId) (ss : List Step) : idAfter id ss = id + (ss.map Step.width).sum := by
  induction ss generalizing id with
  | nil => simp [idAfter]
  | cons s r ih =>
    rw [idAfter_cons, ih, List.map_cons, List.sum_cons, Int.add_assoc]

theorem span_eq (ss : List Step) : (span ss : Int) = (ss.map Step.width).sum := by
  induction ss with
  | nil => rfl
  | cons s r ih => rw [span, Int.natCast_add, s.toNat_width, ih, List.map_cons, List.sum_cons]

theorem getElem?_placed (id : StepId) (ss : List Step) (n : Nat) :
    (placed id ss)[n]? = ss[n]?.map fun s => (idAfter id (ss.take n), s) := by
  induction ss generalizing id n with
  | nil => simp [placed]
  | cons s r ih =>
    cases n with
    | zero => rfl
    | succ n => simp [placed, ih, idAfter_cons]

/-- Sites come in the order of the steps, each at the start of its block. -/
theorem exists_site {f : Flow} {n : Nat} {s : Step} (h : f.workflow.allSteps[n]? = some s) :
    ∃ t ∈ f.sites, t.id = f.blockStart n ∧ t.step = s := by
  have hplaced := getElem?_placed 2 f.workflow.allSteps n
  rw [placed_eq_sites, List.getElem?_map, h, idAfter_eq] at hplaced
  obtain ⟨t, ht, he⟩ := Option.map_eq_some_iff.1 hplaced
  obtain ⟨hid, hstep⟩ := Prod.mk.inj he
  exact ⟨t, List.mem_of_getElem? ht, hid, hstep⟩

theorem index_of_site {f : Flow} {t : Site} (ht : t ∈ f.sites) :
    ∃ n : Nat, f.workflow.allSteps[n]? = some t.step ∧ t.id = f.blockStart n := by
  obtain ⟨n, hn⟩ := List.getElem?_of_mem ht
  have hplaced := getElem?_placed 2 f.workflow.allSteps n
  rw [placed_eq_sites, List.getElem?_map, hn, idAfter_eq] at hplaced
  obtain ⟨s, hs, he⟩ := Option.map_eq_some_iff.1 hplaced.symm
  obtain ⟨hid, rfl⟩ := Prod.mk.inj he
  exact ⟨n, hs, hid.symm⟩

theorem keys_declaredJumps {f : Flow} {s : Step} {fromHandler : Bool} {es : List (String × String)}
    {n m : Navigation} (hes : (n.keys ++ es.map Prod.fst).Nodup)
    (h : f.declaredJumps s fromHandler es n = .ok m) : m.keys = n.keys ++ es.map Prod.fst := by
  induction es generalizing n with
  | nil =>
    obtain rfl := Except.ok.inj h
    simp
  | cons e r ih =>
    obtain ⟨j, -, h⟩ := bind_eq_ok.1 h
    have hnew : e.1 ∉ n.keys := by
      intro hmem
      exact (List.nodup_append.1 hes).2.2 e.1 hmem e.1 (by simp) rfl
    have hkeys : (n.insert e.1 j).keys = n.keys ++ [e.1] := by
      rw [OrderedMap.keys_insert, if_neg hnew]
    rw [ih _ h, hkeys]
    · simp
    · rw [hkeys]
      simpa using hes

theorem keys_addMissing {n m : Navigation} {key : String} {x : Except CompileError Jump}
    (h : addMissing key x n = .ok m) :
    m.keys = n.keys ++ if key ∈ n.keys then [] else [key] := by
  unfold addMissing at h
  by_cases hkey : key ∈ n.keys
  · rw [if_pos (OrderedMap.contains_iff.2 hkey)] at h
    obtain rfl := Except.ok.inj h
    simp [hkey]
  · rw [if_neg (fun hc => hkey (OrderedMap.contains_iff.1 hc))] at h
    obtain ⟨j, -, h⟩ := bind_eq_ok.1 h
    obtain rfl := Except.ok.inj h
    rw [OrderedMap.keys_insert, if_neg hkey, if_neg hkey]

/-- The keys of a site's navigation are the results that its step answers. -/
theorem keys_navigationAt {f : Flow} {t : Site} (h : f.Resolved t) :
    (f.navigationAt t).keys = t.step.answered := by
  rw [Resolved, navigationOf_eq] at h
  obtain ⟨n₁, h₁, h⟩ := bind_eq_ok.1 h
  obtain ⟨n₂, h₂, h₃⟩ := bind_eq_ok.1 h
  have hdeclared : n₁.keys = t.step.navigation.keys :=
    keys_declaredJumps (n := .empty) t.step.navigation.distinct h₁
  have hne : failure ≠ success := by decide
  rw [keys_addMissing h₃, keys_addMissing h₂, hdeclared, Step.answered]
  by_cases hs : success ∈ t.step.navigation.keys
  · by_cases hf : failure ∈ t.step.navigation.keys
    · simp [hs, hf]
    · simp [hs, hf]
  · by_cases hf : failure ∈ t.step.navigation.keys
    · simp [hs, hf]
    · simp [hs, hf, hne]

namespace Lowered

variable {f : Flow} {p : Plan}

theorem instructions_eq (h : f.Lowered p) : p.instructions = f.instructions :=
  Plan.instructions_of_entries h.entries_eq

theorem step?_instruction (h : f.Lowered p) {i : Instruction} (hi : i ∈ p.instructions) :
    p.step? i.id = some i := by
  rw [h.step?_iff, ← h.instructions_eq]
  exact ⟨hi, rfl⟩

theorem keys_eq (h : f.Lowered p) :
    p.steps.keys = idRange 1 (1 + (f.workflow.allSteps.map Step.width).sum).toNat := by
  have hcount : (1 + (f.workflow.allSteps.map Step.width).sum).toNat =
      1 + span f.workflow.allSteps := by
    rw [← span_eq]
    omega
  rw [hcount, ← ids_instructions, SortedMap.keys, h.entries_eq, List.map_map]
  rfl

theorem hasBlock (h : f.Lowered p) {t : Site} (ht : t ∈ f.sites) :
    p.HasBlock t.id t.step (f.navigationAt t) := by
  have hmem {i : Instruction} (hi : i ∈ block t.step t.id (f.navigationAt t)) :
      p.step? i.id = some i :=
    h.step?_block ht hi
  unfold Plan.HasBlock
  unfold block at hmem
  cases hl : t.step.parallelLoop with
  | none =>
    simp only [hl] at hmem
    exact hmem List.mem_cons_self
  | some loop =>
    simp only [hl] at hmem
    exact ⟨hmem List.mem_cons_self, hmem (.tail _ (.head _)), hmem (.tail _ (.tail _ (.head _))),
      hmem (.tail _ (.tail _ (.tail _ (.head _))))⟩

/-- An instruction is the first one, or it belongs to the block of a site. -/
theorem mem_cases (h : f.Lowered p) {i : Instruction} (hi : i ∈ p.instructions) :
    i = ⟨1, f.name.name, .flowBegin f.inputs 2⟩ ∨ ∃ t ∈ f.sites, i ∈ f.blockAt t := by
  rw [h.instructions_eq, instructions] at hi
  rcases List.mem_cons.1 hi with hi | hi
  · exact .inl hi
  · exact .inr (List.mem_flatMap.1 hi)

end Lowered

theorem mem_idRange {id k : Int} {n : Nat} : k ∈ idRange id n ↔ id ≤ k ∧ k < id + n := by
  rw [idRange, List.mem_map]
  constructor
  · rintro ⟨m, hm, rfl⟩
    have hlt := List.mem_range.1 hm
    omega
  · rintro ⟨hle, hlt⟩
    have hcast : ((k - id).toNat : Int) = k - id := by omega
    refine ⟨(k - id).toNat, List.mem_range.2 (by omega), ?_⟩
    rw [hcast]
    omega

variable {f : Flow} {t : Site} {i : Instruction}

theorem id_of_block (hi : i ∈ f.blockAt t) : t.id ≤ i.id ∧ i.id < t.id + t.step.width := by
  have hid : i.id ∈ (f.blockAt t).map Instruction.id := List.mem_map_of_mem hi
  rw [blockAt, ids_block, mem_idRange, Step.toNat_width] at hid
  exact hid

theorem isAsync_of_block (hi : i ∈ f.blockAt t) : i.isAsync = t.step.parallelLoop.isSome := by
  unfold blockAt block at hi
  cases hl : t.step.parallelLoop with
  | none =>
    simp only [hl, List.mem_singleton] at hi
    rw [hi]
    rfl
  | some loop =>
    simp only [hl, List.mem_cons, List.not_mem_nil, or_false] at hi
    rcases hi with rfl | rfl | rfl | rfl <;> rfl

theorem isSplit_of_block (hi : i ∈ f.blockAt t) (h : i.isSplit = true) :
    t.step.parallelLoop.isSome = true ∧ i.id = t.id := by
  unfold blockAt block at hi
  cases hl : t.step.parallelLoop with
  | none =>
    simp only [hl, List.mem_singleton] at hi
    rw [hi] at h
    cases h
  | some loop =>
    simp only [hl, List.mem_cons, List.not_mem_nil, or_false] at hi
    rcases hi with rfl | rfl | rfl | rfl
    · exact ⟨rfl, rfl⟩
    all_goals cases h

end Flow

/-- In the block of a parallel loop all instructions are asynchronous. -/
theorem Plan.HasBlock.isAsync {p : Plan} {id k : Int} {s : Step} {navigation : Navigation}
    (h : p.HasBlock id s navigation) (hs : s.parallelLoop.isSome = true) (hle : id ≤ k)
    (hlt : k < id + s.width) : ∃ i, p.step? k = some i ∧ i.isAsync = true := by
  obtain ⟨loop, hl⟩ := Option.isSome_iff_exists.1 hs
  have hwidth : s.width = 4 := by rw [Step.width, if_pos hs]
  unfold HasBlock at h
  simp only [hl] at h
  obtain ⟨h₀, h₁, h₂, h₃⟩ := h
  have hk : k = id ∨ k = id + 1 ∨ k = id + 2 ∨ k = id + 3 := by omega
  rcases hk with rfl | rfl | rfl | rfl
  · exact ⟨_, h₀, rfl⟩
  · exact ⟨_, h₁, rfl⟩
  · exact ⟨_, h₂, rfl⟩
  · exact ⟨_, h₃, rfl⟩

theorem Plan.HasBlock.isSplit {p : Plan} {id : Int} {s : Step} {navigation : Navigation}
    (h : p.HasBlock id s navigation) (hs : s.parallelLoop.isSome = true) :
    ∃ i, p.step? id = some i ∧ i.isSplit = true := by
  obtain ⟨loop, hl⟩ := Option.isSome_iff_exists.1 hs
  unfold HasBlock at h
  simp only [hl] at h
  exact ⟨_, h.1, rfl⟩

namespace Flow

namespace Lowered

variable {f : Flow} {p : Plan}

theorem isAsync_iff (h : f.Lowered p) {i : Instruction} (hi : i ∈ p.instructions) :
    i.isAsync = true ↔ f.InParallelBlock i.id := by
  constructor
  · intro hasync
    rcases h.mem_cases hi with rfl | ⟨t, ht, hblock⟩
    · cases hasync
    · obtain ⟨n, hn, hstart⟩ := index_of_site ht
      have hid := id_of_block hblock
      rw [isAsync_of_block hblock] at hasync
      rw [hstart] at hid
      exact ⟨n, t.step, hn, hasync, hid⟩
  · rintro ⟨n, s, hn, hs, hle, hlt⟩
    obtain ⟨t, ht, hstart, rfl⟩ := exists_site hn
    rw [← hstart] at hle hlt
    obtain ⟨j, hj, hasync⟩ := (h.hasBlock ht).isAsync hs hle hlt
    rw [h.step?_instruction hi] at hj
    rwa [Option.some.inj hj]

theorem isSplit_iff (h : f.Lowered p) {i : Instruction} (hi : i ∈ p.instructions) :
    i.isSplit = true ↔
      ∃ n s, f.workflow.allSteps[n]? = some s ∧ s.parallelLoop.isSome ∧ i.id = f.blockStart n := by
  constructor
  · intro hsplit
    rcases h.mem_cases hi with rfl | ⟨t, ht, hblock⟩
    · cases hsplit
    · obtain ⟨n, hn, hstart⟩ := index_of_site ht
      obtain ⟨hs, hid⟩ := isSplit_of_block hblock hsplit
      exact ⟨n, t.step, hn, hs, hid.trans hstart⟩
  · rintro ⟨n, s, hn, hs, hid⟩
    obtain ⟨t, ht, hstart, rfl⟩ := exists_site hn
    obtain ⟨j, hj, hsplit⟩ := (h.hasBlock ht).isSplit hs
    rw [hstart, ← hid, h.step?_instruction hi] at hj
    rwa [Option.some.inj hj]

end Lowered

/-- A flow that can be lowered is laid out block after block. -/
theorem laidOut_of_plan {f : Flow} {p : Plan} (h : f.plan = .ok p) : f.LaidOut p := by
  have hl := lowered_of_plan h
  refine ⟨hl.keys_eq, Plan.keyed_of_entries hl.entries_eq, ?_, ?_, ?_, ?_⟩
  · rw [hl.step?_iff]
    exact ⟨List.mem_cons_self, rfl⟩
  · intro n s hn
    obtain ⟨t, ht, hstart, rfl⟩ := exists_site hn
    rw [← hstart]
    have hkeys := keys_navigationAt (hl.resolved t ht)
    exact ⟨f.navigationAt t, hl.hasBlock ht, hkeys, hkeys ▸ (f.navigationAt t).distinct⟩
  · exact fun i hi => hl.isAsync_iff hi
  · exact fun i hi => hl.isSplit_iff hi

end Flow

theorem retryFlow_layout : ∃ p, retryFlow.plan = .ok p ∧ p.steps.keys = [1, 2, 3, 4, 5, 6, 7] ∧
    ∀ s ∈ retryFlow.workflow.steps[1]?, ∃ navigation, p.HasBlock 6 s navigation ∧
      navigation.keys = ["FAILURE", "SUCCESS"] := by
  obtain ⟨p, hp⟩ : ∃ p, retryFlow.plan = .ok p := ⟨_, rfl⟩
  have hlaid := Flow.laidOut_of_plan hp
  refine ⟨p, hp, hlaid.keys, ?_⟩
  intro s hs
  obtain rfl := Option.some.inj hs
  obtain ⟨navigation, hblock, hkeys, -⟩ := hlaid.blocks 1 _ rfl
  exact ⟨navigation, hblock, hkeys⟩

end WorkflowCompiler
