import WorkflowCompiler.Artifact
import WorkflowCompiler.Proofs.Basic

/-!
Assembling accepts exactly the lists of plans in which no id comes twice, also not the root's, and in which
every plan that an instruction refers to is given. The artifact then holds the given plans and no others. Of any
other list the first repeated id is reported, or else the first reference without a plan, where the plans are
searched in the order of their ids; so the order in which different plans are given never matters.
-/

namespace WorkflowCompiler

namespace Artifact

/-- The plans under their ids, added to those of `m`. -/
def store (m : SortedMap String Plan) (ps : List Plan) : SortedMap String Plan :=
  ps.foldl (fun m p => m.insert p.id p) m

/-- The plans are collected exactly when every id is new when its turn comes. -/
theorem collect_eq_ok {rootId : String} {ps : List Plan} {m m' : SortedMap String Plan} :
    collect rootId ps m = .ok m' ↔
      (ps.map Plan.id).Nodup ∧ (∀ p ∈ ps, p.id ≠ rootId ∧ m.get? p.id = none) ∧
        m' = store m ps := by
  induction ps generalizing m with
  | nil => simp [collect, store, eq_comm]
  | cons p r ih =>
    by_cases hp : p.id ≠ rootId ∧ m.get? p.id = none
    · have hif : ¬ (p.id = rootId ∨ (m.get? p.id).isSome = true) := by simp [hp.1, hp.2]
      rw [collect, if_neg hif, ih]
      simp only [SortedMap.get?_insert, List.map_cons, List.nodup_cons, List.mem_map, not_exists,
        not_and, List.mem_cons, forall_eq_or_imp]
      constructor
      · rintro ⟨hnodup, hnew, rfl⟩
        refine ⟨⟨?_, hnodup⟩, ⟨hp, ?_⟩, rfl⟩
        · intro q hq heq
          have h := (hnew q hq).2
          simp [heq] at h
        · intro q hq
          obtain ⟨hroot, h⟩ := hnew q hq
          split at h
          · simp at h
          · exact ⟨hroot, h⟩
      · rintro ⟨⟨hfirst, hnodup⟩, ⟨-, hnew⟩, rfl⟩
        refine ⟨hnodup, ?_, rfl⟩
        intro q hq
        rw [if_neg (hfirst q hq)]
        exact hnew q hq
    · have hif : p.id = rootId ∨ (m.get? p.id).isSome = true := by
        rw [Option.isSome_iff_ne_none]
        exact Decidable.not_and_iff_not_or_not.1 hp |>.imp Decidable.not_not.1 id
      rw [collect, if_pos hif]
      constructor
      · intro h
        cases h
      · rintro ⟨-, hnew, -⟩
        exact absurd (hnew p (by simp)) hp

/-- The plans are refused for the first id that is not new when its turn comes. -/
theorem collect_eq_error {rootId : String} {ps : List Plan} {m : SortedMap String Plan}
    {err : CompileError} :
    collect rootId ps m = .error err ↔ ∃ front p back m', ps = front ++ p :: back ∧
      collect rootId front m = .ok m' ∧ (p.id = rootId ∨ (m'.get? p.id).isSome = true) ∧
        err = .duplicateDependency p.id := by
  induction ps generalizing m with
  | nil => simp [collect]
  | cons q r ih =>
    by_cases hq : q.id = rootId ∨ (m.get? q.id).isSome = true
    · rw [collect, if_pos hq]
      constructor
      · intro h
        exact ⟨[], q, r, m, rfl, rfl, hq, (Except.error.inj h).symm⟩
      · rintro ⟨front, p, back, m', heq, hfront, -, rfl⟩
        cases front with
        | nil =>
          obtain ⟨rfl, rfl⟩ := List.cons.inj heq
          rfl
        | cons x front =>
          obtain ⟨rfl, rfl⟩ := List.cons.inj heq
          rw [collect, if_pos hq] at hfront
          cases hfront
    · rw [collect, if_neg hq, ih]
      constructor
      · rintro ⟨front, p, back, m', rfl, hfront, hp, rfl⟩
        exact ⟨q :: front, p, back, m', rfl, by rw [collect, if_neg hq, hfront], hp, rfl⟩
      · rintro ⟨front, p, back, m', heq, hfront, hp, rfl⟩
        cases front with
        | nil =>
          obtain ⟨rfl, rfl⟩ := List.cons.inj heq
          obtain rfl := Except.ok.inj hfront
          exact absurd hp hq
        | cons x front =>
          obtain ⟨rfl, rfl⟩ := List.cons.inj heq
          rw [collect, if_neg hq] at hfront
          exact ⟨front, p, back, m', rfl, hfront, hp, rfl⟩

theorem get?_store {ps : List Plan} (hps : (ps.map Plan.id).Nodup) (m : SortedMap String Plan)
    (id : String) (p : Plan) :
    (store m ps).get? id = some p ↔
      (p ∈ ps ∧ p.id = id) ∨ (id ∉ ps.map Plan.id ∧ m.get? id = some p) := by
  induction ps generalizing m with
  | nil => simp [store]
  | cons q r ih =>
    obtain ⟨hq, hr⟩ := List.nodup_cons.1 hps
    have hstep := ih hr (m.insert q.id q)
    rw [show store m (q :: r) = store (m.insert q.id q) r from rfl, hstep, SortedMap.get?_insert]
    by_cases hid : id = q.id
    · subst hid
      have hnot : ¬ (p ∈ r ∧ p.id = q.id) := fun h => hq (List.mem_map.2 ⟨p, h.1, h.2⟩)
      simp only [if_true, Option.some.injEq, List.mem_cons, List.map_cons]
      grind
    · simp only [hid, if_false, List.mem_cons, List.map_cons]
      grind

/-- Every plan that an instruction refers to is there. -/
def Closed (a : Artifact) : Prop :=
  ∀ p ∈ a.plans, ∀ i ∈ p.instructions, ∀ r ∈ i.references, ∃ q, a.plan? r = some q

theorem checkClosure_eq_ok {a : Artifact} : a.checkClosure = .ok () ↔ a.Closed := by
  have hfind : a.checkClosure = .ok () ↔
      (a.uses.find? fun u => (a.plan? u.2.2).isNone) = none := by
    unfold checkClosure
    cases a.uses.find? fun u => (a.plan? u.2.2).isNone with
    | none => simp
    | some u => simp
  rw [hfind, List.find?_eq_none]
  constructor
  · intro h p hp i hi r hr
    have hu : (p, i, r) ∈ a.uses := by
      simp only [uses, List.mem_flatMap, List.mem_map]
      exact ⟨p, hp, i, hi, r, hr, rfl⟩
    have hfound : a.plan? r ≠ none := by simpa using h (p, i, r) hu
    exact Option.ne_none_iff_exists'.1 hfound
  · intro h u hu
    simp only [uses, List.mem_flatMap, List.mem_map] at hu
    obtain ⟨p, hp, i, hi, r, hr, rfl⟩ := hu
    obtain ⟨q, hq⟩ := h p hp i hi r hr
    simp [hq]

/-- Every instruction of the plans with what it refers to: the plans in turn, the instructions of each by their keys. -/
def usesIn (ps : List Plan) : List (Plan × Instruction × String) :=
  ps.flatMap fun p => p.instructions.flatMap fun i => i.references.map fun r => (p, i, r)

theorem checkClosure_eq_error {a : Artifact} {err : CompileError} :
    a.checkClosure = .error err ↔ ∃ front p i r back, usesIn a.plans = front ++ (p, i, r) :: back ∧
      (∀ u ∈ front, ∃ q, a.plan? u.2.2 = some q) ∧ a.plan? r = none ∧
        err = .incompleteClosure p.id i.id r := by
  have hfind : a.checkClosure = .error err ↔ ∃ p i r,
      (a.uses.find? fun u => (a.plan? u.2.2).isNone) = some (p, i, r) ∧
        err = .incompleteClosure p.id i.id r := by
    unfold checkClosure
    cases a.uses.find? fun u => (a.plan? u.2.2).isNone with
    | none => simp
    | some u =>
      obtain ⟨p, i, r⟩ := u
      constructor
      · intro h
        exact ⟨p, i, r, rfl, (Except.error.inj h).symm⟩
      · rintro ⟨_, _, _, ⟨⟩, rfl⟩
        rfl
  rw [hfind]
  simp only [List.find?_eq_some_iff_append, Option.isNone_iff_eq_none, Bool.not_eq_true',
    Option.isNone_eq_false_iff, Option.isSome_iff_exists]
  constructor
  · rintro ⟨p, i, r, ⟨hr, front, back, huses, hfront⟩, rfl⟩
    exact ⟨front, p, i, r, back, huses, hfront, hr, rfl⟩
  · rintro ⟨front, p, i, r, back, huses, hfront, hr, rfl⟩
    exact ⟨p, i, r, ⟨hr, front, back, huses, hfront⟩, rfl⟩

/-- The artifact of a root and the other plans. -/
def of (root : Plan) (ps : List Plan) : Artifact := ⟨root, store .empty ps⟩

/-- Started with nothing, the plans are collected when all ids are different, the root's included. -/
theorem collect_empty_eq_ok {rootId : String} {ps : List Plan} {m : SortedMap String Plan} :
    collect rootId ps .empty = .ok m ↔ (rootId :: ps.map Plan.id).Nodup ∧ m = store .empty ps := by
  rw [collect_eq_ok, List.nodup_cons]
  simp only [SortedMap.get?_empty, and_true, List.mem_map, not_exists, not_and]
  constructor
  · rintro ⟨hids, hroot, rfl⟩
    exact ⟨⟨hroot, hids⟩, rfl⟩
  · rintro ⟨⟨hroot, hids⟩, rfl⟩
    exact ⟨hids, hroot, rfl⟩

theorem assemble_of_nodup {root : Plan} {ps : List Plan} (h : (root.id :: ps.map Plan.id).Nodup) :
    assemble root ps = (of root ps).checkClosure >>= fun _ => .ok (of root ps) := by
  rw [assemble, collect_empty_eq_ok.2 ⟨h, rfl⟩]
  rfl

theorem assemble_eq_ok {root : Plan} {ps : List Plan} {a : Artifact} :
    assemble root ps = .ok a ↔
      (root.id :: ps.map Plan.id).Nodup ∧ (of root ps).Closed ∧ a = of root ps := by
  constructor
  · intro h
    obtain ⟨m, hm, h⟩ := bind_eq_ok.1 h
    obtain ⟨⟨⟩, hclosed, h⟩ := bind_eq_ok.1 h
    obtain ⟨hids, rfl⟩ := collect_empty_eq_ok.1 hm
    exact ⟨hids, checkClosure_eq_ok.1 hclosed, (Except.ok.inj h).symm⟩
  · rintro ⟨hids, hclosed, rfl⟩
    rw [assemble_of_nodup hids]
    exact bind_eq_ok.2 ⟨(), checkClosure_eq_ok.2 hclosed, rfl⟩

section Distinct

variable {root : Plan} {ps : List Plan} (h : (root.id :: ps.map Plan.id).Nodup)

include h

theorem get?_of (id : String) (p : Plan) :
    (of root ps).dependencies.get? id = some p ↔ p ∈ ps ∧ p.id = id := by
  rw [of, get?_store (List.nodup_cons.1 h).2]
  simp

theorem plan?_of (id : String) (p : Plan) :
    (of root ps).plan? id = some p ↔ p ∈ root :: ps ∧ p.id = id := by
  have hroot := (List.nodup_cons.1 h).1
  unfold plan?
  split
  · rename_i hid
    rw [Option.some.injEq, List.mem_cons]
    constructor
    · rintro rfl
      exact ⟨.inl rfl, hid⟩
    · rintro ⟨rfl | hp, hpid⟩
      · rfl
      · exact absurd (List.mem_map.2 ⟨p, hp, hpid.trans hid.symm⟩) hroot
  · rename_i hid
    rw [get?_of h, List.mem_cons]
    constructor
    · rintro ⟨hp, hpid⟩
      exact ⟨.inr hp, hpid⟩
    · rintro ⟨rfl | hp, hpid⟩
      · exact absurd hpid hid
      · exact ⟨hp, hpid⟩

/-- What is stored are the given plans, each under its id. -/
theorem mem_entries_of (e : String × Plan) :
    e ∈ (of root ps).dependencies.entries ↔ e.2 ∈ ps ∧ e.2.id = e.1 := by
  rw [← get?_of h, SortedMap.get?_iff_mem]

theorem mem_values_of (p : Plan) : p ∈ (of root ps).dependencies.values ↔ p ∈ ps := by
  simp only [SortedMap.values, List.mem_map]
  constructor
  · rintro ⟨e, he, rfl⟩
    exact ((mem_entries_of h e).1 he).1
  · intro hp
    exact ⟨(p.id, p), (mem_entries_of h _).2 ⟨hp, rfl⟩, rfl⟩

theorem mem_plans_of (p : Plan) : p ∈ (of root ps).plans ↔ p ∈ root :: ps := by
  rw [plans, List.mem_cons, List.mem_cons, mem_values_of h]
  rfl

/-- The artifact is closed when the given plans answer all references among them. -/
theorem closed_of_iff : (of root ps).Closed ↔
    ∀ p ∈ root :: ps, ∀ i ∈ p.instructions, ∀ r ∈ i.references, ∃ q ∈ root :: ps, q.id = r := by
  simp only [Closed, mem_plans_of h, plan?_of h]

theorem nodup_ids_perm {qs : List Plan} (hperm : qs.Perm ps) :
    (root.id :: qs.map Plan.id).Nodup :=
  ((hperm.map Plan.id).cons root.id).nodup_iff.2 h

/-- The order of the plans leaves no trace. -/
theorem of_perm {qs : List Plan} (hperm : qs.Perm ps) : of root qs = of root ps := by
  have hget (id : String) :
      (of root qs).dependencies.get? id = (of root ps).dependencies.get? id := by
    apply Option.ext
    intro p
    rw [get?_of (nodup_ids_perm h hperm), get?_of h, hperm.mem_iff]
  exact congrArg (Artifact.mk root) (SortedMap.ext_get? hget)

/-- The other plans are stored in the order of their ids. -/
theorem increasing_values_of :
    (of root ps).dependencies.values.Pairwise fun p q => p.id < q.id := by
  rw [SortedMap.values, List.pairwise_map]
  refine (of root ps).dependencies.increasing.imp_of_mem ?_
  intro d e hd he hlt
  rwa [((mem_entries_of h d).1 hd).2, ((mem_entries_of h e).1 he).2]

end Distinct

/-- The plans in the order of their ids. -/
structure ById (ps order : List Plan) : Prop where
  perm : order.Perm ps
  increasing : order.Pairwise fun p q => p.id < q.id

theorem ById.unique {ps order order' : List Plan} (h : ById ps order) (h' : ById ps order') :
    order = order' := by
  refine eq_of_increasing h.increasing h'.increasing fun p => ?_
  rw [h.perm.mem_iff, h'.perm.mem_iff]

theorem byId_values_of {root : Plan} {ps : List Plan} (h : (root.id :: ps.map Plan.id).Nodup) :
    ById ps (of root ps).dependencies.values := by
  have hincreasing := increasing_values_of h
  have hvalues : (of root ps).dependencies.values.Nodup := by
    refine hincreasing.imp ?_
    rintro p _ hlt rfl
    exact String.lt_irrefl _ hlt
  have hps : ps.Nodup :=
    List.Pairwise.of_map Plan.id (fun p q hne heq => hne (congrArg _ heq)) (List.nodup_cons.1 h).2
  exact ⟨(List.perm_ext_iff_of_nodup hvalues hps).2 (mem_values_of h), hincreasing⟩

/-- Why plans are not assembled: the first id that comes again, or else the first reference, root first and then by
ids and keys, that no plan answers. -/
inductive Refused (root : Plan) (ps : List Plan) : CompileError → Prop where
  | clash {front back : List Plan} {p : Plan} (hsplit : ps = front ++ p :: back)
      (hfront : (root.id :: front.map Plan.id).Nodup) (h : p.id ∈ root.id :: front.map Plan.id) :
      Refused root ps (.duplicateDependency p.id)
  | gap {order : List Plan} {front back : List (Plan × Instruction × String)} {p : Plan}
      {i : Instruction} {r : String} (hids : (root.id :: ps.map Plan.id).Nodup)
      (horder : ById ps order) (hsplit : usesIn (root :: order) = front ++ (p, i, r) :: back)
      (hfront : ∀ u ∈ front, ∃ q ∈ root :: ps, q.id = u.2.2) (h : ∀ q ∈ root :: ps, q.id ≠ r) :
      Refused root ps (.incompleteClosure p.id i.id r)

theorem collect_empty_eq_error {rootId : String} {ps : List Plan} {err : CompileError} :
    collect rootId ps .empty = .error err ↔ ∃ front p back, ps = front ++ p :: back ∧
      (rootId :: front.map Plan.id).Nodup ∧ p.id ∈ rootId :: front.map Plan.id ∧
        err = .duplicateDependency p.id := by
  have htaken {front : List Plan} (hfront : (rootId :: front.map Plan.id).Nodup) (id : String) :
      ((store .empty front).get? id).isSome = true ↔ id ∈ front.map Plan.id := by
    simp [Option.isSome_iff_exists, get?_store (List.nodup_cons.1 hfront).2]
  rw [collect_eq_error]
  constructor
  · rintro ⟨front, p, back, m, hsplit, hm, hp, rfl⟩
    obtain ⟨hfront, rfl⟩ := collect_empty_eq_ok.1 hm
    rw [htaken hfront] at hp
    exact ⟨front, p, back, hsplit, hfront, List.mem_cons.2 hp, rfl⟩
  · rintro ⟨front, p, back, hsplit, hfront, hp, rfl⟩
    refine ⟨front, p, back, _, hsplit, collect_empty_eq_ok.2 ⟨hfront, rfl⟩, ?_, rfl⟩
    rw [htaken hfront]
    exact List.mem_cons.1 hp

theorem checkClosure_of_eq_error {root : Plan} {ps : List Plan} {err : CompileError}
    (h : (root.id :: ps.map Plan.id).Nodup) :
    (of root ps).checkClosure = .error err ↔ ∃ order front p i r back, ById ps order ∧
      usesIn (root :: order) = front ++ (p, i, r) :: back ∧
        (∀ u ∈ front, ∃ q ∈ root :: ps, q.id = u.2.2) ∧ (∀ q ∈ root :: ps, q.id ≠ r) ∧
          err = .incompleteClosure p.id i.id r := by
  have hnone (r : String) : (of root ps).plan? r = none ↔ ∀ q ∈ root :: ps, q.id ≠ r := by
    simp only [Option.eq_none_iff_forall_ne_some, ne_eq, plan?_of h, not_and]
  simp only [checkClosure_eq_error, plan?_of h, hnone]
  constructor
  · rintro ⟨front, p, i, r, back, huses, hfront, hr, rfl⟩
    exact ⟨_, front, p, i, r, back, byId_values_of h, huses, hfront, hr, rfl⟩
  · rintro ⟨order, front, p, i, r, back, horder, huses, hfront, hr, rfl⟩
    rw [horder.unique (byId_values_of h)] at huses
    exact ⟨front, p, i, r, back, huses, hfront, hr, rfl⟩

theorem assemble_eq_error {root : Plan} {ps : List Plan} {err : CompileError} :
    assemble root ps = .error err ↔ Refused root ps err := by
  constructor
  · intro herr
    rcases bind_eq_error.1 herr with hm | ⟨m, hm, -⟩
    · obtain ⟨front, p, back, hsplit, hfront, hp, rfl⟩ := collect_empty_eq_error.1 hm
      exact .clash hsplit hfront hp
    · obtain ⟨hids, -⟩ := collect_empty_eq_ok.1 hm
      rw [assemble_of_nodup hids, bind_eq_error] at herr
      obtain hclosure | ⟨_, -, hok⟩ := herr
      · obtain ⟨order, front, p, i, r, back, horder, huses, hfront, hr, rfl⟩ :=
          (checkClosure_of_eq_error hids).1 hclosure
        exact .gap hids horder huses hfront hr
      · cases hok
  · intro herr
    cases herr with
    | clash hsplit hfront hp =>
      exact bind_eq_error.2 (.inl (collect_empty_eq_error.2 ⟨_, _, _, hsplit, hfront, hp, rfl⟩))
    | gap hids horder huses hfront hr =>
      rw [assemble_of_nodup hids]
      refine bind_eq_error.2 (.inl ((checkClosure_of_eq_error hids).2 ?_))
      exact ⟨_, _, _, _, _, _, horder, huses, hfront, hr, rfl⟩

/-- Exactly the plans with different ids that answer all references among them are assembled, into an artifact of just
these plans. Otherwise the first clash of ids is reported, or else the first gap, and the order in which plans with
different ids are given makes no difference. -/
theorem assemble_outcome (root : Plan) (ps : List Plan) :
    ((∃ a, assemble root ps = .ok a) ↔ (root.id :: ps.map Plan.id).Nodup ∧
      ∀ p ∈ root :: ps, ∀ i ∈ p.instructions, ∀ r ∈ i.references, ∃ q ∈ root :: ps, q.id = r) ∧
    (∀ a, assemble root ps = .ok a →
      (∃ order, ById ps order ∧ a.plans = root :: order) ∧
      ∀ id p, a.plan? id = some p ↔ p ∈ root :: ps ∧ p.id = id) ∧
    (∀ err, assemble root ps = .error err ↔ Refused root ps err) ∧
    ∀ qs, qs.Perm ps → (root.id :: ps.map Plan.id).Nodup → assemble root qs = assemble root ps := by
  refine ⟨?_, ?_, fun err => assemble_eq_error, ?_⟩
  · constructor
    · rintro ⟨a, ha⟩
      obtain ⟨hids, hclosed, -⟩ := assemble_eq_ok.1 ha
      exact ⟨hids, (closed_of_iff hids).1 hclosed⟩
    · rintro ⟨hids, hanswered⟩
      exact ⟨_, assemble_eq_ok.2 ⟨hids, (closed_of_iff hids).2 hanswered, rfl⟩⟩
  · intro a ha
    obtain ⟨hids, -, rfl⟩ := assemble_eq_ok.1 ha
    exact ⟨⟨_, byId_values_of hids, rfl⟩, plan?_of hids⟩
  · intro qs hperm hids
    rw [assemble_of_nodup (nodup_ids_perm hids hperm), assemble_of_nodup hids, of_perm hids hperm]

end Artifact

def fetchOperation : Operation where
  name := ⟨"io", "fetch", by decide, by decide⟩
  inputs := []
  outputs := []
  results := []
  action := .script "fetch"

def fetchBranch : Plan := .ofBranch fetchOperation.name

def storeBranch : Plan := .ofBranch ⟨"io", "store", by decide, by decide⟩

/-- The plan of a branch can be a root; a second branch brings a reference that nothing answers. -/
theorem fetchBranch_assembled :
    (∃ a, Artifact.assemble fetchBranch [fetchOperation.plan] = .ok a ∧
      a.plan? "io.fetch" = some fetchOperation.plan) ∧
    Artifact.assemble fetchBranch [fetchOperation.plan, storeBranch] =
      .error (.incompleteClosure "branch:io.store" 1 "io.store") := by
  constructor
  · obtain ⟨haccepts, hplans, -⟩ := Artifact.assemble_outcome fetchBranch [fetchOperation.plan]
    obtain ⟨a, ha⟩ := haccepts.2 ⟨by decide, by decide⟩
    exact ⟨a, ha, ((hplans a ha).2 _ _).2 ⟨by decide, rfl⟩⟩
  · obtain ⟨-, -, -, horder⟩ := Artifact.assemble_outcome fetchBranch [storeBranch, fetchOperation.plan]
    rw [horder _ (.swap _ _ _) (by decide)]
    with_unfolding_all rfl

end WorkflowCompiler
