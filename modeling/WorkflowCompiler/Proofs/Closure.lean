import WorkflowCompiler.Closure
import WorkflowCompiler.Proofs.Basic

/-!
The search for what a root needs finds exactly the executables that can be reached through the references of
steps. What the search knows is sound at every moment, every visit of a step covers the step, and at
the end all steps of all executables that were found are covered.
-/

namespace WorkflowCompiler

namespace Catalog

/-- The table holds the executables under their names. -/
theorem entries_eq (c : Catalog) : c.table.entries = c.executables.map fun e => (e.name, e) := by
  have hentries : c.table.entries.map id =
      c.table.entries.map ((fun e : Executable => (e.name, e)) ∘ Prod.snd) := by
    apply List.map_congr_left
    intro entry hentry
    exact Prod.ext (c.keyed entry hentry) rfl
  rw [executables, List.map_map, ← hentries, List.map_id]

theorem keys_eq (c : Catalog) : c.table.keys = c.executables.map Executable.name := by
  rw [OrderedMap.keys, entries_eq, List.map_map]
  rfl

theorem distinct (c : Catalog) : (c.executables.map Executable.name).Nodup := by
  rw [← keys_eq]
  exact c.table.distinct

/-- The catalog of executables without a repeated name, in their order. -/
def ofDistinct (es : List Executable) (h : (es.map Executable.name).Nodup) : Catalog where
  table := ⟨es.map fun e => (e.name, e), by rwa [List.map_map]⟩
  keyed := by
    intro entry hentry
    obtain ⟨e, -, rfl⟩ := List.mem_map.1 hentry
    rfl

theorem executables_ofDistinct {es : List Executable} (h : (es.map Executable.name).Nodup) :
    (ofDistinct es h).executables = es := by
  rw [executables, ofDistinct, List.map_map]
  exact List.map_id es

/-- The executable that a reference means: the root under its own name, else the catalog's. -/
def meaning? (c : Catalog) (root : Executable) (q : QualifiedName) : Option Executable :=
  if q = root.name then some root else c.get? q

theorem name_of_meaning? {c : Catalog} {root e : Executable} {q : QualifiedName}
    (h : c.meaning? root q = some e) : e.name = q := by
  unfold meaning? at h
  split at h
  · rename_i hq
    rw [hq, Option.some.inj h]
  · exact name_of_get? h

/-- An executable that the root invokes through any number of calls. -/
inductive Reachable (c : Catalog) (root : Executable) : Executable → Prop where
  | root : Reachable c root root
  | step {e d : Executable} {s : Step} (h : Reachable c root e) (hs : s ∈ e.allSteps)
      (hd : c.meaning? root s.reference = some d) : Reachable c root d

/-- Some branch of a parallel loop in a reachable flow invokes it. -/
def BranchTarget (c : Catalog) (root : Executable) (q : QualifiedName) : Prop :=
  ∃ e s, c.Reachable root e ∧ s ∈ e.allSteps ∧ s.parallelLoop.isSome ∧ s.reference = q

end Catalog

theorem QualifiedName.eq_of_not_lt {p q : QualifiedName} (h : ¬ p < q) (h' : ¬ q < p) : p = q := by
  rw [lt_iff, not_or, not_and] at h h'
  have hspace : p.space = q.space := Std.Trichotomous.trichotomous _ _ h.1 h'.1
  have hname : p.name = q.name :=
    Std.Trichotomous.trichotomous _ _ (h.2 hspace) (h'.2 hspace.symm)
  exact QualifiedName.ext hspace hname

theorem QualifiedName.lt_irrefl (q : QualifiedName) : ¬ q < q := by
  rw [lt_iff]
  rintro (h | ⟨-, h⟩)
  · exact String.lt_irrefl _ h
  · exact String.lt_irrefl _ h

theorem mem_insertName {q x : QualifiedName} {l : List QualifiedName} :
    x ∈ insertName q l ↔ x = q ∨ x ∈ l := by
  induction l with
  | nil => simp [insertName]
  | cons p r ih =>
    simp only [insertName]
    by_cases hlt : q < p
    · simp [hlt]
    · by_cases hgt : p < q
      · simp only [hlt, hgt, if_true, if_false, List.mem_cons, ih]
        grind
      · have he : q = p := QualifiedName.eq_of_not_lt hlt hgt
        subst he
        simp [hlt]

theorem pairwise_insertName (q : QualifiedName) {l : List QualifiedName} (h : l.Pairwise (· < ·)) :
    (insertName q l).Pairwise (· < ·) := by
  induction l with
  | nil => simp [insertName]
  | cons p r ih =>
    obtain ⟨hp, hr⟩ := List.pairwise_cons.1 h
    simp only [insertName]
    by_cases hlt : q < p
    · simp only [hlt, if_true]
      have hall : ∀ x ∈ p :: r, q < x :=
        List.forall_mem_cons.2 ⟨hlt, fun x hx => QualifiedName.lt_trans hlt (hp x hx)⟩
      exact List.pairwise_cons.2 ⟨hall, h⟩
    · by_cases hgt : p < q
      · simp only [hlt, hgt, if_true, if_false]
        refine List.pairwise_cons.2 ⟨?_, ih hr⟩
        intro x hx
        rcases mem_insertName.1 hx with rfl | hx
        · exact hgt
        · exact hp x hx
      · simpa only [hlt, hgt, if_false] using h

namespace Closure

/-- What the search knows at any moment is true, and nothing is known twice. -/
structure Sound (c : Catalog) (root : Executable) (s : Search) : Prop where
  visited_eq : s.visited = s.found.map Executable.name ++ [root.name]
  nodup_visited : s.visited.Nodup
  stored : ∀ e ∈ s.found, c.get? e.name = some e
  reachable : ∀ e ∈ s.found, c.Reachable root e
  sorted_targets : s.targets.Pairwise (· < ·)
  targets : ∀ q ∈ s.targets, c.BranchTarget root q

theorem Sound.root_visited {c : Catalog} {root : Executable} {s : Search} (hs : Sound c root s) :
    root.name ∈ s.visited := by
  rw [hs.visited_eq]
  simp

/-- The root is not found again under its own name. -/
theorem Sound.name_ne_root {c : Catalog} {root e : Executable} {s : Search} (hs : Sound c root s)
    (he : e ∈ s.found) : e.name ≠ root.name := by
  have hnodup := hs.nodup_visited
  rw [hs.visited_eq, List.nodup_append] at hnodup
  exact hnodup.2.2 e.name (List.mem_map_of_mem he) root.name (by simp)

/-- Every name that was entered means an executable that is known. -/
theorem exists_meaning {c : Catalog} {root : Executable} {s : Search} {q : QualifiedName}
    (hs : Sound c root s) (hq : q ∈ s.visited) :
    ∃ d ∈ root :: s.found, c.meaning? root q = some d := by
  rw [hs.visited_eq, List.mem_append, List.mem_map, List.mem_singleton] at hq
  unfold Catalog.meaning?
  split
  · exact ⟨root, List.mem_cons_self, rfl⟩
  · rename_i hne
    obtain ⟨x, hx, rfl⟩ := hq.resolve_right hne
    exact ⟨x, List.mem_cons_of_mem _ hx, hs.stored x hx⟩

/-- The search has entered what the step refers to. -/
def Covers (s : Search) (step : Step) : Prop :=
  step.reference ∈ s.visited ∧ (step.parallelLoop.isSome → step.reference ∈ s.targets)

/-- The search never forgets. -/
structure Grows (s s' : Search) : Prop where
  visited : ∀ q ∈ s.visited, q ∈ s'.visited
  targets : ∀ q ∈ s.targets, q ∈ s'.targets

theorem Grows.refl (s : Search) : Grows s s := ⟨fun _ h => h, fun _ h => h⟩

theorem Grows.trans {s t u : Search} (h : Grows s t) (h' : Grows t u) : Grows s u :=
  ⟨fun q hq => h'.visited q (h.visited q hq), fun q hq => h'.targets q (h.targets q hq)⟩

theorem Covers.grows {s s' : Search} {step : Step} (h : Covers s step) (hg : Grows s s') :
    Covers s' step :=
  ⟨hg.visited _ h.1, fun hp => hg.targets _ (h.2 hp)⟩

/-- Looking at a step either finds its reference among the names entered or enters one more executable. -/
theorem visitStep_cases {c : Catalog} {flow : QualifiedName} {s s' : Search} {step : Step}
    {new? : Option Executable} (h : visitStep c flow s step = .ok (s', new?)) :
    s'.targets =
        (if step.parallelLoop.isSome then insertName step.reference s.targets else s.targets) ∧
      ((step.reference ∈ s.visited ∧ new? = none ∧ s'.visited = s.visited ∧ s'.found = s.found) ∨
        ∃ e, step.reference ∉ s.visited ∧ c.get? step.reference = some e ∧ new? = some e ∧
          s'.visited = e.name :: s.visited ∧ s'.found = e :: s.found) := by
  simp only [visitStep] at h
  split at h
  · rename_i hv
    obtain ⟨rfl, rfl⟩ := Prod.mk.inj (Except.ok.inj h)
    exact ⟨rfl, .inl ⟨hv, rfl, rfl, rfl⟩⟩
  · rename_i hv
    split at h
    · cases h
    · rename_i e he
      obtain ⟨rfl, rfl⟩ := Prod.mk.inj (Except.ok.inj h)
      exact ⟨rfl, .inr ⟨e, hv, he, rfl, rfl, rfl⟩⟩

theorem visitStep_grows {c : Catalog} {flow : QualifiedName} {s s' : Search} {step : Step}
    {new? : Option Executable} (h : visitStep c flow s step = .ok (s', new?)) :
    Grows s s' ∧ Covers s' step := by
  obtain ⟨ht, hcase⟩ := visitStep_cases h
  have htargets : (∀ q ∈ s.targets, q ∈ s'.targets) ∧
      (step.parallelLoop.isSome → step.reference ∈ s'.targets) := by
    rw [ht]
    split
    · exact ⟨fun q hq => mem_insertName.2 (.inr hq), fun _ => mem_insertName.2 (.inl rfl)⟩
    · rename_i hp
      exact ⟨fun _ hq => hq, fun hp' => absurd hp' hp⟩
  rcases hcase with ⟨hv, -, hvis, -⟩ | ⟨e, -, he, -, hvis, -⟩
  · rw [← hvis] at hv
    exact ⟨⟨fun q hq => hvis ▸ hq, htargets.1⟩, hv, htargets.2⟩
  · have hv : step.reference ∈ s'.visited := by
      rw [hvis, Catalog.name_of_get? he]
      exact List.mem_cons_self
    exact ⟨⟨fun q hq => hvis ▸ List.mem_cons_of_mem _ hq, htargets.1⟩, hv, htargets.2⟩

theorem visitStep_sound {c : Catalog} {root e : Executable} {s s' : Search} {step : Step}
    {new? : Option Executable} (hs : Sound c root s) (he : c.Reachable root e)
    (hstep : step ∈ e.allSteps) (h : visitStep c e.name s step = .ok (s', new?)) :
    Sound c root s' := by
  obtain ⟨ht, hcase⟩ := visitStep_cases h
  have hsorted : s'.targets.Pairwise (· < ·) := by
    rw [ht]
    split
    · exact pairwise_insertName _ hs.sorted_targets
    · exact hs.sorted_targets
  have htargets : ∀ q ∈ s'.targets, c.BranchTarget root q := by
    intro q hq
    rw [ht] at hq
    split at hq
    · rename_i hp
      rcases mem_insertName.1 hq with rfl | hq
      · exact ⟨e, step, he, hstep, hp, rfl⟩
      · exact hs.targets q hq
    · exact hs.targets q hq
  rcases hcase with ⟨-, -, hvis, hfound⟩ | ⟨d, hnew, hd, -, hvis, hfound⟩
  · exact ⟨by rw [hvis, hfound, hs.visited_eq], hvis ▸ hs.nodup_visited, hfound ▸ hs.stored,
      hfound ▸ hs.reachable, hsorted, htargets⟩
  · have hname := Catalog.name_of_get? hd
    have hroot : step.reference ≠ root.name := fun heq => hnew (heq ▸ hs.root_visited)
    have hreach : c.Reachable root d := .step he hstep (by rw [Catalog.meaning?, if_neg hroot, hd])
    refine ⟨?_, ?_, ?_, ?_, hsorted, htargets⟩
    · rw [hvis, hfound, hs.visited_eq]
      rfl
    · rw [hvis]
      exact List.nodup_cons.2 ⟨hname ▸ hnew, hs.nodup_visited⟩
    · rw [hfound]
      exact List.forall_mem_cons.2 ⟨by rw [hname, hd], hs.stored⟩
    · rw [hfound]
      exact List.forall_mem_cons.2 ⟨hreach, hs.reachable⟩

theorem visitSteps_sound {c : Catalog} {root e : Executable} {s s' : Search} {steps : List Step}
    {new : List Executable} (hs : Sound c root s) (he : c.Reachable root e)
    (hsteps : ∀ step ∈ steps, step ∈ e.allSteps)
    (h : visitSteps c e.name s steps = .ok (s', new)) :
    Sound c root s' ∧ Grows s s' ∧ (∀ step ∈ steps, Covers s' step) ∧
      s'.found = new.reverse ++ s.found := by
  induction steps generalizing s new with
  | nil =>
    obtain ⟨rfl, rfl⟩ := Prod.mk.inj (Except.ok.inj h)
    exact ⟨hs, .refl s, by simp, by simp⟩
  | cons step r ih =>
    obtain ⟨⟨s₁, new₁⟩, h₁, h⟩ := bind_eq_ok.1 h
    obtain ⟨⟨s₂, new₂⟩, h₂, h⟩ := bind_eq_ok.1 h
    obtain ⟨rfl, rfl⟩ := Prod.mk.inj (Except.ok.inj h)
    have hs₁ := visitStep_sound hs he (hsteps step (by simp)) h₁
    obtain ⟨hg₁, hc₁⟩ := visitStep_grows h₁
    obtain ⟨hs₂, hg₂, hc₂, hf₂⟩ := ih hs₁ (fun x hx => hsteps x (by simp [hx])) h₂
    have hf₁ : s₁.found = new₁.toList.reverse ++ s.found := by
      rcases (visitStep_cases h₁).2 with ⟨-, rfl, -, hf⟩ | ⟨d, -, -, rfl, -, hf⟩
      · simp [hf]
      · simp [hf]
    refine ⟨hs₂, hg₁.trans hg₂, ?_, ?_⟩
    · exact List.forall_mem_cons.2 ⟨hc₁.grows hg₂, hc₂⟩
    · rw [hf₂, hf₁, List.reverse_append, List.append_assoc]

/-- Searching the front of the queue keeps the search sound and the queue reachable. -/
theorem queue_next {c : Catalog} {root e : Executable} {s s' : Search} {r new : List Executable}
    (hs : Sound c root s) (hq : ∀ x ∈ e :: r, c.Reachable root x)
    (h : visitSteps c e.name s e.allSteps = .ok (s', new)) :
    Sound c root s' ∧ ∀ x ∈ r ++ new, c.Reachable root x := by
  obtain ⟨hs', -, -, hf⟩ := visitSteps_sound hs (hq e (by simp)) (fun _ hx => hx) h
  have hnew : ∀ x ∈ new, c.Reachable root x := fun x hx => hs'.reachable x (by simp [hf, hx])
  exact ⟨hs', List.forall_mem_append.2 ⟨(List.forall_mem_cons.1 hq).2, hnew⟩⟩

/-- What was found and is not in the queue has been searched. -/
def Searched (root : Executable) (s : Search) (queue : List Executable) : Prop :=
  ∀ e ∈ root :: s.found, e ∈ queue ∨ ∀ step ∈ e.allSteps, Covers s step

theorem searched_next {c : Catalog} {root e : Executable} {s s' : Search}
    {r new : List Executable} (hs : Sound c root s) (hq : ∀ x ∈ e :: r, c.Reachable root x)
    (hd : Searched root s (e :: r)) (h : visitSteps c e.name s e.allSteps = .ok (s', new)) :
    Searched root s' (r ++ new) := by
  obtain ⟨-, hg, hc, hf⟩ := visitSteps_sound hs (hq e (by simp)) (fun _ hx => hx) h
  intro x hx
  rw [hf] at hx
  have hcase : x ∈ root :: s.found ∨ x ∈ new := by
    simp only [List.mem_cons, List.mem_append, List.mem_reverse] at hx ⊢
    grind
  rcases hcase with hx | hx
  · rcases hd x hx with hx | hx
    · rcases List.mem_cons.1 hx with rfl | hx
      · exact .inr hc
      · exact .inl (by simp [hx])
    · exact .inr fun step hstep => (hx step hstep).grows hg
  · exact .inl (by simp [hx])

/-- At the end of the search all steps of all that was found are covered. -/
theorem search_sound {c : Catalog} {root : Executable} {s s' : Search} {queue : List Executable}
    (hs : Sound c root s) (hq : ∀ x ∈ queue, c.Reachable root x) (hd : Searched root s queue)
    (h : search c s queue = .ok s') : Sound c root s' ∧ Searched root s' [] := by
  fun_induction search c s queue with
  | case1 s =>
    obtain rfl := Except.ok.inj h
    exact ⟨hs, hd⟩
  | case2 s e r err herr => simp at h
  | case3 s e r s₁ new hvisit _ ih =>
    obtain ⟨hs₁, hq₁⟩ := queue_next hs hq hvisit
    exact ih hs₁ hq₁ (searched_next hs hq hd hvisit) h

/-- Steps cannot all be looked at only when one of them refers to a name without a meaning; the first such step is
reported. -/
theorem visitSteps_eq_error {c : Catalog} {root e : Executable} {s : Search} {steps : List Step}
    {err : CompileError} (hs : Sound c root s) (he : c.Reachable root e)
    (hsteps : ∀ step ∈ steps, step ∈ e.allSteps) (h : visitSteps c e.name s steps = .error err) :
    ∃ front step back, steps = front ++ step :: back ∧
      (∀ x ∈ front, ∃ d, c.meaning? root x.reference = some d) ∧
        c.meaning? root step.reference = none ∧
          err = .unresolvedReference e.name.text step.name step.reference.text := by
  induction steps generalizing s with
  | nil => simp [visitSteps] at h
  | cons step r ih =>
    rcases bind_eq_error.1 h with h | ⟨⟨s₁, new₁⟩, hvisit, h⟩
    · refine ⟨[], step, r, rfl, by simp, ?_⟩
      simp only [visitStep] at h
      split at h
      · cases h
      · rename_i hv
        split at h
        · rename_i hget
          have hne : step.reference ≠ root.name := fun heq => hv (heq ▸ hs.root_visited)
          exact ⟨by rw [Catalog.meaning?, if_neg hne, hget], (Except.error.inj h).symm⟩
        · cases h
    · rcases bind_eq_error.1 h with h | ⟨⟨s₂, new₂⟩, -, h⟩
      · have hs₁ := visitStep_sound hs he (hsteps step (by simp)) hvisit
        obtain ⟨d, -, hd⟩ := exists_meaning hs₁ (visitStep_grows hvisit).2.1
        obtain ⟨front, x, back, rfl, hfront, hfault⟩ := ih hs₁ (fun x hx => hsteps x (by simp [hx])) h
        exact ⟨step :: front, x, back, rfl, List.forall_mem_cons.2 ⟨⟨d, hd⟩, hfront⟩, hfault⟩
      · cases h

theorem search_eq_error {c : Catalog} {root : Executable} {s : Search} {queue : List Executable}
    {err : CompileError} (hs : Sound c root s) (hq : ∀ x ∈ queue, c.Reachable root x)
    (h : search c s queue = .error err) :
    ∃ e step, c.Reachable root e ∧ step ∈ e.allSteps ∧ c.meaning? root step.reference = none ∧
      err = .unresolvedReference e.name.text step.name step.reference.text := by
  fun_induction search c s queue with
  | case1 s => cases h
  | case2 s e r err' herr =>
    obtain ⟨front, step, back, hsplit, -, hmeans, rfl⟩ :=
      visitSteps_eq_error hs (hq e (by simp)) (fun _ hx => hx) herr
    exact ⟨e, step, hq e (by simp), by simp [hsplit], hmeans, (Except.error.inj h).symm⟩
  | case3 s e r s₁ new hvisit _ ih =>
    obtain ⟨hs₁, hq₁⟩ := queue_next hs hq hvisit
    exact ih hs₁ hq₁ h

end Closure

namespace Catalog

/-- Nothing but the root is known at the start. -/
theorem sound_start (c : Catalog) (root : Executable) :
    Closure.Sound c root ⟨[root.name], [], []⟩ :=
  ⟨rfl, by simp, by simp, by simp, .nil, by simp⟩

theorem resolve_eq_error {c : Catalog} {root : Executable} {err : CompileError}
    (h : c.resolve root = .error err) :
    ∃ e step, c.Reachable root e ∧ step ∈ e.allSteps ∧ c.meaning? root step.reference = none ∧
      err = .unresolvedReference e.name.text step.name step.reference.text := by
  rcases bind_eq_error.1 h with h | ⟨s, -, h⟩
  · exact Closure.search_eq_error (c.sound_start root) (by simp [Reachable.root]) h
  · cases h

end Catalog

/-- What the closure of a root is, said through reachability. -/
structure Closure.Exact (c : Catalog) (root : Executable) (k : Closure) : Prop where
  nodup_names : (root.name :: k.dependencies.map Executable.name).Nodup
  mem_dependencies : ∀ e, e ∈ k.dependencies ↔ c.Reachable root e ∧ e ≠ root
  nodup_targets : k.branchTargets.Nodup
  mem_targets : ∀ q, q ∈ k.branchTargets ↔ c.BranchTarget root q
  meaning : ∀ e s, c.Reachable root e → s ∈ e.allSteps →
    ∃ d, c.meaning? root s.reference = some d

theorem Closure.Exact.mem_all {c : Catalog} {root : Executable} {k : Closure} (h : k.Exact c root)
    (e : Executable) : e ∈ root :: k.dependencies ↔ c.Reachable root e := by
  rw [List.mem_cons, h.mem_dependencies]
  constructor
  · rintro (rfl | ⟨he, -⟩)
    · exact .root
    · exact he
  · intro he
    by_cases hroot : e = root
    · exact .inl hroot
    · exact .inr ⟨he, hroot⟩

namespace Closure

/-- A search that is over knows everything that is reachable. -/
theorem mem_found {c : Catalog} {root e : Executable} {s : Search} (hs : Sound c root s)
    (hd : Searched root s []) (h : c.Reachable root e) : e ∈ root :: s.found := by
  induction h with
  | root => simp
  | step h hstep hmeans ih =>
    rename_i e d step
    have hcover := (hd e ih).resolve_left (by simp) step hstep
    obtain ⟨x, hx, hmeans'⟩ := exists_meaning hs hcover.1
    rw [hmeans] at hmeans'
    rw [Option.some.inj hmeans']
    exact hx

theorem covers_of_reachable {c : Catalog} {root e : Executable} {s : Search} {step : Step}
    (hs : Sound c root s) (hd : Searched root s []) (he : c.Reachable root e)
    (hstep : step ∈ e.allSteps) : Covers s step :=
  (hd e (mem_found hs hd he)).resolve_left (by simp) step hstep

end Closure

/-- A search that succeeds gives what is reachable, all of it and each once. -/
theorem Catalog.exact_of_resolve {c : Catalog} {root : Executable} {k : Closure}
    (h : c.resolve root = .ok k) : k.Exact c root := by
  obtain ⟨s, hsearch, h⟩ := bind_eq_ok.1 h
  obtain rfl := Except.ok.inj h
  obtain ⟨hs, hd⟩ := Closure.search_sound (c.sound_start root) (by simp [Reachable.root])
    (by simp [Closure.Searched]) hsearch
  have hnodup := hs.nodup_visited
  rw [hs.visited_eq, List.nodup_append] at hnodup
  refine ⟨?_, ?_, ?_, ?_, ?_⟩
  · rw [List.nodup_cons, List.map_reverse, List.mem_reverse]
    refine ⟨?_, (List.reverse_perm _).nodup_iff.2 hnodup.1⟩
    intro hmem
    obtain ⟨e, he, hname⟩ := List.mem_map.1 hmem
    exact hs.name_ne_root he hname
  · intro e
    rw [List.mem_reverse]
    constructor
    · intro he
      refine ⟨hs.reachable e he, ?_⟩
      rintro rfl
      exact hs.name_ne_root he rfl
    · rintro ⟨he, hroot⟩
      exact (List.mem_cons.1 (Closure.mem_found hs hd he)).resolve_left hroot
  · refine hs.sorted_targets.imp ?_
    rintro p _ hlt rfl
    exact QualifiedName.lt_irrefl p hlt
  · intro q
    constructor
    · exact hs.targets q
    · rintro ⟨e, step, he, hstep, hp, rfl⟩
      exact (Closure.covers_of_reachable hs hd he hstep).2 hp
  · intro e step he hstep
    have hcover := Closure.covers_of_reachable hs hd he hstep
    obtain ⟨d, -, hmeans⟩ := Closure.exists_meaning hs hcover.1
    exact ⟨d, hmeans⟩

/-- The search succeeds exactly when every reference that can be reached has a meaning. -/
theorem Catalog.resolve_eq_ok_iff {c : Catalog} {root : Executable} :
    (∃ k, c.resolve root = .ok k) ↔
      ∀ e s, c.Reachable root e → s ∈ e.allSteps → ∃ d, c.meaning? root s.reference = some d := by
  constructor
  · rintro ⟨k, hk⟩
    exact (exact_of_resolve hk).meaning
  · intro hmeans
    cases h : c.resolve root with
    | ok k => exact ⟨k, rfl⟩
    | error err =>
      obtain ⟨e, step, he, hstep, hnone, -⟩ := resolve_eq_error h
      obtain ⟨d, hd⟩ := hmeans e step he hstep
      rw [hnone] at hd
      cases hd

end WorkflowCompiler
