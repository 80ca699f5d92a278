import WorkflowCompiler.Proofs.Layout

/-!
Where control can pass in a plan. Jumps lead to the first instruction of a block or to the end with a declared
result; inside the block of a parallel loop control goes from the split to the branch and to its end, and in no
other way into the middle of a block. Nothing leads back to the begin instruction.
-/

namespace WorkflowCompiler

namespace Instruction

/-- The instructions with which the block of a step begins. -/
def OpensBlock (i : Instruction) : Prop := i.task.role = "invoke" ∨ i.task.role = "split"

/-- The successors of an instruction with a navigation are its jumps that do not lead to the end. -/
theorem mem_successors {i : Instruction} {n : Navigation} (h : i.navigation? = some n) {id : StepId} :
    id ∈ i.successors ↔ ∃ e ∈ n.entries, e.2.isTerminal = false ∧ e.2.next = id := by
  have hlist : i.successors =
      ((n.entries.map Prod.snd).filter fun j => !j.isTerminal).map Jump.next := by
    unfold navigation? at h
    unfold successors
    split at h
    · rename_i hi
      rw [hi, Option.some.inj h]
    · rename_i hi
      rw [hi, Option.some.inj h]
    · cases h
  rw [hlist]
  simp only [List.mem_map, List.mem_filter]
  constructor
  · rintro ⟨j, ⟨⟨e, he, rfl⟩, hj⟩, rfl⟩
    exact ⟨e, he, by simpa using hj, rfl⟩
  · rintro ⟨e, he, hj, rfl⟩
    exact ⟨e.2, ⟨⟨e, he, rfl⟩, by simpa using hj⟩, rfl⟩

end Instruction

namespace Plan

/-- Control passes to an instruction from exactly one other, the one just before it, which has the given role. -/
def OnlyAfter (p : Plan) (role : String) (i : Instruction) : Prop :=
  ∃ j ∈ p.instructions, j.task.role = role ∧ j.id + 1 = i.id ∧
    ∀ k ∈ p.instructions, i.id ∈ k.successors ↔ k = j

/-- No jump leads out of the plan or into the middle of a block. -/
structure Connected (p : Plan) : Prop where
  successors : ∀ i ∈ p.instructions, ∀ id ∈ i.successors,
    id ≠ p.start ∧ ∃ j, p.step? id = some j ∧ j.id = id
  jumps : ∀ i ∈ p.instructions, ∀ n ∈ i.navigation?, ∀ e ∈ n.entries,
    (e.2.next = terminalId ∧ ∃ r ∈ p.results, e.2.preset = some r) ∨
      (e.2.preset = none ∧ ∃ j, p.step? e.2.next = some j ∧ j.OpensBlock)
  branchBegin : ∀ i ∈ p.instructions, i.task.role = "branch-begin" → p.OnlyAfter "split" i
  branchEnd : ∀ i ∈ p.instructions, i.task.role = "branch-end" → p.OnlyAfter "branch-begin" i

end Plan

namespace Flow

variable {f : Flow} {p : Plan} {t : Site} {i : Instruction}

/-- A jump leads to the first id of a block, or to the end with a declared result. -/
inductive Lands (f : Flow) : Jump → Prop where
  | block {t : Site} (ht : t ∈ f.sites) : Lands f (.toStep t.id)
  | finish {result : String} (h : result ∈ f.workflow.results) : Lands f (.toEnd result)

theorem lands_entryId {name : String} {id : StepId} (h : f.entryId? name = some id) :
    f.Lands (.toStep id) := by
  have hmem := mem_of_lookup h
  rw [entryIds, placed_eq_sites, List.map_map] at hmem
  obtain ⟨t, ht, he⟩ := List.mem_map.1 hmem
  obtain ⟨-, rfl⟩ := Prod.mk.inj he
  exact .block ht

theorem lands_resolve {fromHandler : Bool} {target : String} {j : Jump}
    (h : f.resolve? fromHandler target = some j) : f.Lands j := by
  have hdeclared (hd : f.workflow.declares target = true) : f.Lands (.toEnd target) :=
    .finish (by simpa [Workflow.declares] using hd)
  unfold resolve? at h
  split at h
  · rename_i id hid
    obtain rfl := Option.some.inj h
    exact lands_entryId hid
  · split at h
    · rename_i hd
      split at h
      · rename_i id hid
        split at h
        · obtain rfl := Option.some.inj h
          obtain ⟨s, -, hs⟩ := Option.bind_eq_some_iff.1 hid
          exact lands_entryId hs
        · obtain rfl := Option.some.inj h
          exact hdeclared hd
      · obtain rfl := Option.some.inj h
        exact hdeclared hd
    · cases h

/-- The default for success goes to the block of the next regular step. -/
theorem lands_next (ht : t ∈ f.sites) {id : StepId} (h : t.next = some id) :
    f.Lands (.toStep id) := by
  rcases List.mem_append.1 ht with ht | ht
  · obtain ⟨n, hn⟩ := List.getElem?_of_mem ht
    rw [getElem?_regularSites] at hn
    obtain ⟨s, -, rfl⟩ := Option.map_eq_some_iff.1 hn
    dsimp only at h
    split at h
    · rename_i hlt
      obtain rfl := Option.some.inj h
      have hnext := getElem?_regularSites 2 f.workflow.steps (n + 1)
      rw [List.getElem?_eq_getElem hlt] at hnext
      have hmem := List.mem_append_left
        (f.workflow.onFailure.toList.map fun h => Site.mk (idAfter 2 f.workflow.steps) h none true)
        (List.mem_of_getElem? hnext)
      exact Lands.block (f := f) hmem
    · cases h
  · obtain ⟨s, -, rfl⟩ := List.mem_map.1 ht
    cases h

theorem lands_jump (ht : t ∈ f.sites) {result : String} {j : Jump}
    (h : f.jump? t result = some j) : f.Lands j := by
  unfold jump? at h
  split at h
  · exact lands_resolve h
  · split at h
    · unfold successJump? at h
      split at h
      · rename_i id hid
        obtain rfl := Option.some.inj h
        exact lands_next ht hid
      · exact lands_resolve h
    · split at h
      · exact lands_resolve h
      · cases h

theorem two_le_site (ht : t ∈ f.sites) : 2 ≤ t.id := by
  obtain ⟨n, -, hid⟩ := index_of_site ht
  rw [hid, blockStart, ← idAfter_eq]
  exact le_idAfter 2 _

/-- A block ends with its navigation, and inside it control passes to the next instruction. -/
theorem passes_of_block (hi : i ∈ f.blockAt t) :
    (i.navigation? = some (f.navigationAt t)) ∨
      (i.navigation? = none ∧ ∀ id ∈ i.successors, id = i.id + 1 ∧ ∃ j ∈ f.blockAt t, j.id = id) := by
  unfold blockAt block at hi ⊢
  cases hl : t.step.parallelLoop with
  | none =>
    simp only [hl, List.mem_singleton] at hi
    rw [hi]
    exact .inl rfl
  | some loop =>
    simp only [hl, List.mem_cons, List.not_mem_nil, or_false] at hi
    rcases hi with rfl | rfl | rfl | rfl
    · exact .inr ⟨rfl, by simp [Instruction.successors]⟩
    · refine .inr ⟨rfl, ?_⟩
      simp [Instruction.successors, Int.add_assoc]
    · exact .inr ⟨rfl, by simp [Instruction.successors]⟩
    · exact .inl rfl

/-- Before the begin of a branch stands the split, and before its end the begin. -/
theorem before_of_block (hi : i ∈ f.blockAt t) :
    (i.task.role = "branch-begin" → ∃ j ∈ f.blockAt t, j.task.role = "split" ∧ j.id + 1 = i.id ∧
      j.successors = [i.id]) ∧
    (i.task.role = "branch-end" → ∃ j ∈ f.blockAt t, j.task.role = "branch-begin" ∧
      j.id + 1 = i.id ∧ j.successors = [i.id]) := by
  unfold blockAt block at hi ⊢
  cases hl : t.step.parallelLoop with
  | none =>
    simp only [hl, List.mem_singleton] at hi
    rw [hi]
    simp [Task.role]
  | some loop =>
    simp only [hl, List.mem_cons, List.not_mem_nil, or_false] at hi
    rcases hi with rfl | rfl | rfl | rfl
    · simp [Task.role]
    · simp [Task.role, Instruction.successors]
    · simp [Task.role, Instruction.successors, Int.add_assoc]
    · simp [Task.role]

namespace Lowered

theorem lands_navigation (h : f.Lowered p) (ht : t ∈ f.sites) {e : String × Jump}
    (he : e ∈ (f.navigationAt t).entries) : f.Lands e.2 := by
  have hget := (OrderedMap.get?_iff_mem _ e.1 e.2).2 he
  rw [(get?_navigationAt (h.resolved t ht) e.1).1] at hget
  exact lands_jump ht hget

theorem block_mem (h : f.Lowered p) (ht : t ∈ f.sites) (hi : i ∈ f.blockAt t) :
    i ∈ p.instructions := by
  rw [h.instructions_eq]
  exact List.mem_cons_of_mem _ (List.mem_flatMap.2 ⟨t, ht, hi⟩)

/-- The first instruction of a block is where the site says. -/
theorem opens_site (h : f.Lowered p) (ht : t ∈ f.sites) :
    ∃ j, p.step? t.id = some j ∧ j.id = t.id ∧ j.OpensBlock := by
  have hblock := h.hasBlock ht
  unfold Plan.HasBlock at hblock
  cases hl : t.step.parallelLoop with
  | none =>
    simp only [hl] at hblock
    exact ⟨_, hblock, rfl, .inl rfl⟩
  | some loop =>
    simp only [hl] at hblock
    exact ⟨_, hblock.1, rfl, .inr rfl⟩

theorem first_site (h : f.Lowered p) : ∃ t ∈ f.sites, t.id = 2 := by
  cases hs : f.workflow.steps with
  | nil => exact absurd hs h.nonempty
  | cons s r =>
    obtain ⟨t, ht, hid, -⟩ := exists_site (f := f) (n := 0) (s := s) (by simp [Workflow.allSteps, hs])
    exact ⟨t, ht, hid⟩

/-- A successor is the first instruction of a block, or the next instruction of the same block. -/
theorem successor_cases (h : f.Lowered p) (hi : i ∈ p.instructions) {id : StepId}
    (hid : id ∈ i.successors) :
    (∃ t ∈ f.sites, id = t.id) ∨
      (id = i.id + 1 ∧ ∃ t ∈ f.sites, ∃ j ∈ f.blockAt t, j.id = id) := by
  rcases h.mem_cases hi with rfl | ⟨t, ht, hblock⟩
  · obtain ⟨t, ht, hfirst⟩ := h.first_site
    have htwo : id = 2 := by simpa [Instruction.successors] using hid
    exact .inl ⟨t, ht, htwo.trans hfirst.symm⟩
  · rcases passes_of_block hblock with hn | ⟨-, hnext⟩
    · obtain ⟨⟨result, j⟩, he, hend, rfl⟩ := (Instruction.mem_successors hn).1 hid
      cases h.lands_navigation ht he with
      | block ht => exact .inl ⟨_, ht, rfl⟩
      | finish => cases hend
    · obtain ⟨hid, hj⟩ := hnext id hid
      exact .inr ⟨hid, t, ht, hj⟩

/-- Control passes to an instruction that does not open a block only from the one just before it. -/
theorem onlyAfter_of_block (h : f.Lowered p) (ht : t ∈ f.sites) (hi : i ∈ f.blockAt t)
    (hopens : ¬ i.OpensBlock) {role : String}
    (hbefore : ∃ j ∈ f.blockAt t, j.task.role = role ∧ j.id + 1 = i.id ∧ j.successors = [i.id]) :
    p.OnlyAfter role i := by
  obtain ⟨j, hj, hrole, hid, hsucc⟩ := hbefore
  refine ⟨j, h.block_mem ht hj, hrole, hid, ?_⟩
  intro k hk
  constructor
  · intro hpass
    rcases h.successor_cases hk hpass with ⟨t', ht', hstart⟩ | ⟨hnext, -⟩
    · obtain ⟨o, ho, -, hopen⟩ := h.opens_site ht'
      rw [← hstart, h.step?_block ht hi] at ho
      rw [Option.some.inj ho] at hopens
      exact absurd hopen hopens
    · have hsame : k.id = j.id := (Int.add_left_inj 1).1 (hnext.symm.trans hid.symm)
      have hstep := h.step?_instruction hk
      rw [hsame, h.step?_block ht hj] at hstep
      exact (Option.some.inj hstep).symm
  · rintro rfl
    simp [hsucc]

theorem start_eq (h : f.Lowered p) : p.start = 1 := by
  rw [h.plan_eq]
  rfl

theorem connected (h : f.Lowered p) : p.Connected where
  successors := by
    intro i hi id hid
    have hlater {k : Int} (hk : 2 ≤ k) : k ≠ 1 := by omega
    rw [h.start_eq]
    rcases h.successor_cases hi hid with ⟨t, ht, rfl⟩ | ⟨-, t, ht, j, hj, rfl⟩
    · obtain ⟨j, hj, hjid, -⟩ := h.opens_site ht
      exact ⟨hlater (two_le_site ht), j, hj, hjid⟩
    · exact ⟨hlater (Int.le_trans (two_le_site ht) (id_of_block hj).1), j, h.step?_block ht hj, rfl⟩
  jumps := by
    intro i hi n hn e he
    rcases h.mem_cases hi with rfl | ⟨t, ht, hblock⟩
    · cases hn
    · have hnavigation : n = f.navigationAt t := by
        rcases passes_of_block hblock with hsome | ⟨hnone, -⟩
        · exact Option.some.inj (hn.symm.trans hsome)
        · cases hn.symm.trans hnone
      obtain ⟨result, j⟩ := e
      rw [hnavigation] at he
      cases h.lands_navigation ht he with
      | block ht =>
        obtain ⟨o, ho, -, hopen⟩ := h.opens_site ht
        exact .inr ⟨rfl, o, ho, hopen⟩
      | @finish r hr =>
        refine .inl ⟨rfl, r, ?_, rfl⟩
        rw [h.plan_eq]
        exact hr
  branchBegin := by
    intro i hi hrole
    rcases h.mem_cases hi with rfl | ⟨t, ht, hblock⟩
    · simp [Task.role] at hrole
    · have hopens : ¬ i.OpensBlock := by simp [Instruction.OpensBlock, hrole]
      exact h.onlyAfter_of_block ht hblock hopens ((before_of_block hblock).1 hrole)
  branchEnd := by
    intro i hi hrole
    rcases h.mem_cases hi with rfl | ⟨t, ht, hblock⟩
    · simp [Task.role] at hrole
    · have hopens : ¬ i.OpensBlock := by simp [Instruction.OpensBlock, hrole]
      exact h.onlyAfter_of_block ht hblock hopens ((before_of_block hblock).2 hrole)

end Lowered

end Flow

namespace Plan

/-- Plans without navigation and branches, in which each instruction but the last leads to the next one. -/
theorem connected_of_chain {p : Plan} {is : List Instruction}
    (hentries : p.steps.entries = is.map fun i => (i.id, i)) (hstart : p.start = 1)
    (hplain : ∀ i ∈ is, i.navigation? = none ∧ i.task.role ≠ "branch-begin" ∧
      i.task.role ≠ "branch-end")
    (hchain : ∀ i ∈ is, ∀ id ∈ i.successors, id ≠ 1 ∧ ∃ j ∈ is, j.id = id) : p.Connected := by
  have his : p.instructions = is := instructions_of_entries hentries
  refine ⟨?_, ?_, ?_, ?_⟩
  · intro i hi id hid
    rw [his] at hi
    obtain ⟨hne, j, hj, rfl⟩ := hchain i hi id hid
    rw [hstart]
    refine ⟨hne, j, ?_, rfl⟩
    rw [step?, SortedMap.get?_iff_mem, hentries]
    exact List.mem_map_of_mem hj
  · intro i hi n hn
    rw [his] at hi
    rw [(hplain i hi).1] at hn
    cases hn
  · intro i hi hrole
    rw [his] at hi
    exact absurd hrole (hplain i hi).2.1
  · intro i hi hrole
    rw [his] at hi
    exact absurd hrole (hplain i hi).2.2

theorem connected_ofBranch (q : QualifiedName) : (ofBranch q).Connected := by
  refine connected_of_chain (entries_ofBranch q) rfl ?_ ?_
  · simp [Instruction.navigation?, Task.role]
  · simp [Instruction.successors]

end Plan

theorem Operation.connected_plan (op : Operation) : op.plan.Connected := by
  refine Plan.connected_of_chain op.entries_plan rfl ?_ ?_
  · simp [Instruction.navigation?, Task.role]
  · simp [Instruction.successors]

/-- In the plan of an executable or of a branch no jump leads out of the plan or into the middle of a block. -/
theorem Plan.connected_of_lowering {p : Plan}
    (h : (∃ e : Executable, e.plan = .ok p) ∨ ∃ q, p = Plan.ofBranch q) : p.Connected := by
  rcases h with ⟨e, he⟩ | ⟨q, rfl⟩
  · cases e with
    | operation op =>
      obtain rfl := Except.ok.inj he
      exact op.connected_plan
    | flow f => exact (Flow.lowered_of_plan he).connected
  · exact Plan.connected_ofBranch q

/-- The step that fails goes back to the split, and not into the branches that the split starts. -/
theorem retryFlow_connected : ∃ p, retryFlow.plan = .ok p ∧ p.Connected ∧
    ∃ i ∈ p.step? 6, i.successors = [2] := by
  obtain ⟨p, hp⟩ : ∃ p, retryFlow.plan = .ok p := ⟨_, rfl⟩
  have hconnected := Plan.connected_of_lowering (.inl ⟨.flow retryFlow, hp⟩)
  obtain rfl := Except.ok.inj hp
  exact ⟨_, hp, hconnected, _, rfl, by decide⟩

end WorkflowCompiler
