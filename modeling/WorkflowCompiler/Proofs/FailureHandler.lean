import WorkflowCompiler.Proofs.Defaults

/-!
The failure handler cannot be passed by. In a flow that has one, only the handler's own block holds entries that lead to
the end with failure, whatever targets the other steps declare; so every run that completes with failure takes its
last step from that block.
-/

namespace WorkflowCompiler

namespace Plan

/-- The instruction under an id has an entry that leads to the end with a result. -/
def EndsFrom (p : Plan) (id : StepId) (result : String) : Prop :=
  ∃ i n r j, p.step? id = some i ∧ i.navigation? = some n ∧ n.get? r = some j ∧
    j.isTerminal = true ∧ j.preset = some result

variable {p : Plan} {id : StepId} {ids : List StepId}

/-- Control that enters a block waits at the last id for a result to look up. -/
theorem Enters.last {n : Navigation} (h : p.Enters id ids n) :
    ∃ last i, ids.getLast? = some last ∧ p.step? last = some i ∧ i.navigation? = some n := by
  induction h with
  | wait hi hn => exact ⟨_, _, rfl, hi, hn⟩
  | begin _ _ _ ih =>
    obtain ⟨last, i, hlast, hi, hn⟩ := ih
    exact ⟨last, i, by rw [List.getLast?_cons, hlast]; rfl, hi, hn⟩
  | split _ _ hj hjoin => exact ⟨_, _, rfl, hj, by simp [Instruction.navigation?, hjoin]⟩

/-- A run completes by an entry of the last instruction that it passes. -/
theorem Run.endsFrom {results : List String} {result : String}
    (h : p.Run id results ids (.completed result)) :
    ∃ last, ids.getLast? = some last ∧ p.EndsFrom last result := by
  generalize hending : Ending.completed result = ending at h
  induction h with
  | waiting => cases hending
  | stuck => cases hending
  | completed he hn hj hr =>
    obtain rfl := Ending.completed.inj hending
    obtain ⟨last, i, hlast, hi, hnavigation⟩ := he.last
    exact ⟨last, hlast, i, _, _, _, hi, hnavigation, hn, hj, hr⟩
  | next _ _ _ _ ih =>
    obtain ⟨last, hlast, hends⟩ := ih hending
    exact ⟨last, by rw [List.getLast?_append, hlast]; rfl, hends⟩

end Plan

/-- Where there is a failure handler, only the handler finishes with failure. -/
theorem Workflow.handler_of_finish {w : Workflow} {q : Place} {r : String} (hh : w.onFailure.isSome)
    (h : w.move q r = .finish failure) : q = .handler := by
  have hfollow {name : String} (h : w.follow q name = .finish failure) : q = .handler := by
    unfold follow at h
    split at h
    · cases h
    · split at h
      · cases h
      · rename_i hcond
        obtain rfl := Move.finish.inj h
        by_contra hq
        exact hcond ⟨rfl, hq, hh⟩
  unfold move at h
  split at h
  · cases h
  · split at h
    · cases h
    · cases h
    · exact hfollow h

namespace Flow

/-- An id is in the block of the step at a place. -/
def InBlock (f : Flow) (q : Place) (id : StepId) : Prop :=
  ∃ s, f.workflow.stepAt? q = some s ∧ f.workflow.entry q ≤ id ∧ id < f.workflow.entry q + s.width

/-- An entry to the end is in the block of a step that finishes with its result. -/
theorem Lowered.finish_of_endsFrom {f : Flow} {p : Plan} (h : f.Lowered p) {id : StepId}
    {result : String} (hends : p.EndsFrom id result) :
    ∃ q r, f.InBlock q id ∧ f.workflow.move q r = .finish result := by
  obtain ⟨i, n, r, j, hi, hn, hj, hend, hpreset⟩ := hends
  obtain ⟨hmem, rfl⟩ := (h.step?_iff id i).1 hi
  rw [← h.instructions_eq] at hmem
  rcases h.mem_cases hmem with rfl | ⟨t, ht, hblock⟩
  · cases hn
  · rcases passes_of_block hblock with hsome | ⟨hnone, -⟩
    · obtain ⟨q, s, hs, rfl⟩ := place_of_site ht
      obtain rfl := Option.some.inj (hn.symm.trans hsome)
      rw [h.get?_navigation hs] at hj
      refine ⟨q, r, ⟨s, hs, id_of_block hblock⟩, ?_⟩
      rcases jumpOf_eq_some hj with ⟨q', -, rfl⟩ | ⟨result', hm, rfl⟩
      · cases hpreset
      · rw [hm, Option.some.inj hpreset]
    · cases hn.symm.trans hnone

/-- A run of a flow with a failure handler that completes with failure ends in the handler's block. -/
theorem handler_of_failed_run {f : Flow} {p : Plan} (hh : f.workflow.onFailure.isSome)
    (h : f.plan = .ok p) {results : List String} {ids : List StepId}
    (hrun : p.Run p.start results ids (.completed failure)) :
    ∃ last, ids.getLast? = some last ∧ p.EndsFrom last failure ∧ f.InBlock .handler last := by
  obtain ⟨last, hlast, hends⟩ := hrun.endsFrom
  obtain ⟨q, r, hblock, hmove⟩ := (lowered_of_plan h).finish_of_endsFrom hends
  obtain rfl := Workflow.handler_of_finish hh hmove
  exact ⟨last, hlast, hends, hblock⟩

end Flow

/-- Both regular steps declare ways to fail, and the failure handler can go back to the first one. -/
def rescueFlow : Flow where
  name := ⟨"aid", "rescue", by decide, by decide⟩
  inputs := []
  outputs := []
  workflow :=
    { steps := [
        { plainStep "fan" with
          parallelLoop := some ⟨"x", "xs"⟩, isAsync := true
          navigation := .ofList [("FAILURE", "FAILURE")] },
        { plainStep "check" with navigation := .ofList [("BROKEN", "FAILURE")] }]
      onFailure := some { plainStep "clean" with navigation := .ofList [("RETRY", "fan")] }
      results := ["SUCCESS", "FAILURE"] }

/-- The handler is entered twice before the run completes. -/
theorem rescueFlow_failed : ∃ p, rescueFlow.plan = .ok p ∧
    p.Run p.start ["SUCCESS", "BROKEN", "RETRY", "FAILURE", "FAILURE"] [1, 2, 5, 6, 7, 2, 5, 7]
      (.completed "FAILURE") ∧ rescueFlow.InBlock .handler 7 := by
  obtain ⟨p, hp⟩ : ∃ p, rescueFlow.plan = .ok p := ⟨_, rfl⟩
  have hl := Flow.lowered_of_plan hp
  have hrun : p.Run p.start ["SUCCESS", "BROKEN", "RETRY", "FAILURE", "FAILURE"]
      [1, 2, 5, 6, 7, 2, 5, 7] (.completed "FAILURE") := by
    obtain ⟨s, hs⟩ := hl.stepAt?_first
    rw [hl.start_eq]
    exact .begin hl.step?_begin rfl (Flow.run_walkFrom hl _ hs)
  obtain ⟨last, hlast, -, hblock⟩ := Flow.handler_of_failed_run rfl hp hrun
  obtain rfl := Option.some.inj hlast
  exact ⟨p, hp, hrun, hblock⟩

end WorkflowCompiler
