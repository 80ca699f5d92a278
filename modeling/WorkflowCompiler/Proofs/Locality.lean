import Mathlib.Data.List.Nodup
import WorkflowCompiler.Proofs.Compilation

/-!
A compilation sees no more of a catalog than what its references mean. Where two catalogs agree on the meaning of
every reference that the root reaches, the two searches go through the same states, and the compilations end
alike. The same holds between the root and its parts: what a part reaches the root reaches too, so the artifact
of the part is contained in the artifact of the whole.
-/

namespace WorkflowCompiler

namespace Catalog

variable {c c' : Catalog} {root : Executable}

theorem ext_executables (h : c.executables = c'.executables) : c = c' := by
  have htable : c.table = c'.table := OrderedMap.ext (by rw [entries_eq, entries_eq, h])
  cases c
  cases c'
  simp_all

/-- Every executable of the catalog is found under its name. -/
theorem get?_iff_mem {q : QualifiedName} {e : Executable} :
    c.get? q = some e ↔ e ∈ c.executables ∧ e.name = q := by
  constructor
  · intro h
    exact ⟨mem_of_get? h, name_of_get? h⟩
  · rintro ⟨he, rfl⟩
    rw [get?, OrderedMap.get?_iff_mem, entries_eq]
    exact List.mem_map_of_mem he

theorem contains_iff {q : QualifiedName} :
    c.table.contains q = true ↔ q ∈ c.executables.map Executable.name := by
  rw [OrderedMap.contains_iff, keys_eq]

theorem insert_of_mem {e : Executable} (h : e.name ∈ c.executables.map Executable.name) :
    c.insert e = (.error (.duplicateExecutable e.name.text), c) := by
  simp only [insert, Table.insert_of_contains (contains_iff.2 h)]

/-- An executable whose name is new comes last. -/
theorem insert_of_not_mem {e : Executable} (h : e.name ∉ c.executables.map Executable.name) :
    ∃ c', c.insert e = (.ok (), c') ∧ c'.executables = c.executables ++ [e] := by
  have hnew : c.table.contains e.name = false := by
    rw [← Bool.not_eq_true, contains_iff]
    exact h
  refine ⟨(c.insert e).2, ?_, ?_⟩
  · simp only [insert, Table.insert_of_not_contains hnew]
  · have hkey : e.name ∉ c.table.keys := by rwa [keys_eq]
    have hentries : (c.insert e).2.table.entries = c.table.entries ++ [(e.name, e)] := by
      simp only [insert, Table.insert_of_not_contains hnew]
      exact putEntry_new e hkey
    rw [executables, hentries, List.map_append]
    rfl

theorem insert_eq_ok {e : Executable} :
    c.insert e = (.ok (), c') ↔ c'.executables = c.executables ++ [e] := by
  by_cases hmem : e.name ∈ c.executables.map Executable.name
  · rw [insert_of_mem hmem]
    constructor
    · intro h
      cases h
    · intro h
      have hnodup := c'.distinct
      rw [h, List.map_append, List.nodup_append] at hnodup
      exact absurd rfl (hnodup.2.2 e.name hmem e.name (by simp))
  · obtain ⟨c₁, hinsert, hexecutables⟩ := insert_of_not_mem hmem
    rw [hinsert, Prod.mk.injEq, eq_self, true_and]
    constructor
    · rintro rfl
      exact hexecutables
    · intro h
      exact ext_executables (hexecutables.trans h.symm)

theorem extend_eq_ok {e : Executable} : c.extend e = .ok c' ↔ c'.executables = c.executables ++ [e] := by
  rw [← insert_eq_ok, extend]
  split
  · rename_i hinsert
    simp [hinsert]
  · rename_i hinsert
    simp [hinsert]

theorem extend_eq_error {e : Executable} {err : CompileError} : c.extend e = .error err ↔
    e.name ∈ c.executables.map Executable.name ∧ err = .duplicateExecutable e.name.text := by
  by_cases hmem : e.name ∈ c.executables.map Executable.name
  · rw [extend, insert_of_mem hmem, Except.error.injEq, eq_comm]
    exact (and_iff_right hmem).symm
  · obtain ⟨c', hinsert, -⟩ := insert_of_not_mem hmem
    rw [extend, hinsert]
    refine iff_of_false ?_ fun h => hmem h.1
    intro h
    cases h

/-- A catalog is made of the lists without repeated names, and keeps their order. -/
theorem ofList_eq_ok {es : List Executable} : ofList es = .ok c ↔ c.executables = es := by
  have hfold (c₀ : Catalog) : es.foldlM extend c₀ = .ok c ↔
      c.executables = c₀.executables ++ es := by
    induction es generalizing c₀ with
    | nil =>
      rw [List.foldlM_nil, List.append_nil]
      constructor
      · intro h
        rw [Except.ok.inj h]
      · intro h
        rw [ext_executables h]
        rfl
    | cons e r ih =>
      rw [List.foldlM_cons, bind_eq_ok, List.append_cons]
      constructor
      · rintro ⟨c₁, h₁, h⟩
        rw [(ih c₁).1 h, extend_eq_ok.1 h₁]
      · intro h
        have hdistinct : ((c₀.executables ++ [e]).map Executable.name).Nodup := by
          have hall := c.distinct
          rw [h, List.map_append] at hall
          exact (List.nodup_append.1 hall).1
        have hexecutables := executables_ofDistinct hdistinct
        refine ⟨ofDistinct (c₀.executables ++ [e]) hdistinct, extend_eq_ok.2 hexecutables, (ih _).2 ?_⟩
        rw [hexecutables, h]
  exact hfold empty

/-- Every reference that the root reaches in the first catalog means the same in the second. -/
def SameMeaning (c c' : Catalog) (root : Executable) : Prop :=
  ∀ e s, c.Reachable root e → s ∈ e.allSteps →
    c'.meaning? root s.reference = c.meaning? root s.reference

theorem sameMeaning_of_get? (h : ∀ e s, c.Reachable root e → s ∈ e.allSteps →
    c'.get? s.reference = c.get? s.reference) : c.SameMeaning c' root := by
  intro e s he hs
  rw [meaning?, meaning?, h e s he hs]

end Catalog

namespace Closure

variable {c c' : Catalog} {root : Executable}

theorem visitStep_congr (flow : QualifiedName) {s : Search} {step : Step}
    (hroot : root.name ∈ s.visited)
    (h : c'.meaning? root step.reference = c.meaning? root step.reference) :
    visitStep c' flow s step = visitStep c flow s step := by
  unfold visitStep
  by_cases hv : step.reference ∈ s.visited
  · simp only [hv, if_true]
  · have hne : step.reference ≠ root.name := fun heq => hv (heq ▸ hroot)
    have hget : c'.get? step.reference = c.get? step.reference := by
      simpa only [Catalog.meaning?, hne, if_false] using h
    rw [hget]

theorem visitSteps_congr (flow : QualifiedName) {s : Search} {steps : List Step}
    (hroot : root.name ∈ s.visited)
    (h : ∀ step ∈ steps, c'.meaning? root step.reference = c.meaning? root step.reference) :
    visitSteps c' flow s steps = visitSteps c flow s steps := by
  induction steps generalizing s with
  | nil => rfl
  | cons step r ih =>
    obtain ⟨hstep, hr⟩ := List.forall_mem_cons.1 h
    rw [visitSteps, visitSteps, visitStep_congr flow hroot hstep]
    cases hvisit : visitStep c flow s step with
    | error err => rfl
    | ok p =>
      have hroot' : root.name ∈ p.1.visited := (visitStep_grows hvisit).1.visited _ hroot
      simp only [bind, Except.bind, ih hroot' hr]

theorem search_nil (c : Catalog) (s : Search) : search c s [] = .ok s := by
  rw [search]

theorem search_cons (c : Catalog) (s : Search) (e : Executable) (r : List Executable) :
    search c s (e :: r) =
      visitSteps c e.name s e.allSteps >>= fun p => search c p.1 (r ++ p.2) := by
  rw [search]
  split
  · rename_i h
    simp [h, bind, Except.bind]
  · rename_i h
    simp [h, bind, Except.bind]

/-- Both searches enter the same executables in the same order, up to the first reference without a meaning. -/
theorem search_congr {s : Search} {queue : List Executable} (hsame : c.SameMeaning c' root)
    (hs : Sound c root s) (hq : ∀ x ∈ queue, c.Reachable root x) :
    search c' s queue = search c s queue := by
  fun_induction search c s queue with
  | case1 s => exact search_nil c' s
  | case2 s e r err herr =>
    have hvisit := visitSteps_congr e.name hs.root_visited (hsame e · (hq e (by simp)))
    rw [search_cons, hvisit, herr]
    rfl
  | case3 s e r s₁ new hok _ ih =>
    have hvisit := visitSteps_congr e.name hs.root_visited (hsame e · (hq e (by simp)))
    obtain ⟨hs₁, hq₁⟩ := queue_next hs hq hok
    rw [search_cons, hvisit, hok]
    exact ih hs₁ hq₁

end Closure

namespace Catalog

variable {c c' : Catalog} {root : Executable}

theorem resolve_congr (h : c.SameMeaning c' root) : c'.resolve root = c.resolve root := by
  rw [resolve, resolve,
    Closure.search_congr h (c.sound_start root) (by simp [Reachable.root])]

theorem compile_congr (h : c.SameMeaning c' root) : c'.compile root = c.compile root := by
  rw [compile, compile, resolve_congr h]

/-- Where every reference has a meaning, a larger catalog gives it the same one. -/
theorem sameMeaning_of_subset {k : Closure} (hk : c.resolve root = .ok k)
    (hsub : ∀ e ∈ c.executables, e ∈ c'.executables) : c.SameMeaning c' root := by
  intro e s he hs
  obtain ⟨d, hd⟩ := (exact_of_resolve hk).meaning e s he hs
  rw [hd]
  unfold meaning? at hd ⊢
  split
  · rename_i hroot
    rwa [if_pos hroot] at hd
  · rename_i hroot
    rw [if_neg hroot, get?_iff_mem] at hd
    exact get?_iff_mem.2 ⟨hsub d hd.1, hd.2⟩

/-- A compilation depends on a catalog only through the names that are referred to on the way: not on the order
of the executables, not on those that nothing refers to, and once it succeeds not on further ones. -/
theorem compile_local (c : Catalog) (root : Executable) :
    (∀ c' : Catalog, (∀ e s, c.Reachable root e → s ∈ e.allSteps →
        c'.get? s.reference = c.get? s.reference) → c'.compile root = c.compile root) ∧
      (∀ es es' : List Executable, ofList es = .ok c → es.Perm es' →
        ∃ c', ofList es' = .ok c' ∧ c'.compile root = c.compile root) ∧
      (∀ (d : Executable) (c' : Catalog), c.insert d = (.ok (), c') →
        (∀ e s, c.Reachable root e → s ∈ e.allSteps → s.reference ≠ d.name) →
          c'.compile root = c.compile root) ∧
      ∀ (a : Artifact) (c' : Catalog), c.compile root = .ok a →
        (∀ e ∈ c.executables, e ∈ c'.executables) → c'.compile root = .ok a := by
  refine ⟨?_, ?_, ?_, ?_⟩
  · intro c' h
    exact compile_congr (sameMeaning_of_get? h)
  · intro es es' hes hperm
    obtain rfl := ofList_eq_ok.1 hes
    have hdistinct : (es'.map Executable.name).Nodup := (hperm.map _).nodup_iff.1 c.distinct
    have hexecutables := executables_ofDistinct hdistinct
    refine ⟨ofDistinct es' hdistinct, ofList_eq_ok.2 hexecutables, compile_congr (sameMeaning_of_get? ?_)⟩
    intro e s _ _
    ext d
    rw [get?_iff_mem, get?_iff_mem, hexecutables, hperm.mem_iff]
  · intro d c' hinsert hfree
    refine compile_congr (sameMeaning_of_get? ?_)
    intro e s he hs
    have hne : s.reference ≠ d.name := hfree e s he hs
    ext x
    rw [get?_iff_mem, get?_iff_mem, insert_eq_ok.1 hinsert, List.mem_append, List.mem_singleton]
    constructor
    · rintro ⟨hx | rfl, hname⟩
      · exact ⟨hx, hname⟩
      · exact absurd hname.symm hne
    · rintro ⟨hx, hname⟩
      exact ⟨.inl hx, hname⟩
  · intro a c' ha hsub
    obtain ⟨k, -, -, hk, -⟩ := compile_eq_ok.1 ha
    rw [compile_congr (sameMeaning_of_subset hk hsub), ha]

end Catalog

/-- A flow with one step. -/
def callFlow (name reference : QualifiedName) (parallelLoop : Option ParallelLoop) : Flow where
  name
  inputs := []
  outputs := []
  workflow :=
    { steps := [
        { name := "call", reference, arguments := [], loop := none, parallelLoop
          publish := [], aggregate := [], navigation := .empty
          isAsync := parallelLoop.isSome }]
      onFailure := none
      results := ["SUCCESS", "FAILURE"] }

def pingName : QualifiedName := ⟨"relay", "ping", by decide, by decide⟩

def pongName : QualifiedName := ⟨"relay", "pong", by decide, by decide⟩

def pingFlow : Flow := callFlow pingName pongName none

def pongFlow : Flow := callFlow pongName pingName (some ⟨"x", "xs"⟩)

/-- Two flows that call each other, one of them in parallel. -/
def relayCatalog : Catalog := .ofDistinct [.flow pingFlow, .flow pongFlow] (by decide)

theorem relayCatalog_resolve : relayCatalog.resolve (.flow pingFlow) =
    .ok ⟨.flow pingFlow, [.flow pongFlow], [pingName]⟩ := by cbv

/-- The same flows in the other order, and an operation that nothing refers to. -/
def widerRelayCatalog : Catalog :=
  .ofDistinct [.flow pongFlow, .operation pollOperation, .flow pingFlow] (by decide)

theorem pingFlow_compile_wider :
    widerRelayCatalog.compile (.flow pingFlow) = relayCatalog.compile (.flow pingFlow) := by
  refine (Catalog.compile_local relayCatalog (.flow pingFlow)).1 widerRelayCatalog ?_
  intro e s he hs
  have hmem := ((Catalog.exact_of_resolve relayCatalog_resolve).mem_all e).2 he
  simp only [List.mem_cons, List.not_mem_nil, or_false] at hmem
  rcases hmem with rfl | rfl
  · obtain rfl := List.mem_singleton.1 hs
    rfl
  · obtain rfl := List.mem_singleton.1 hs
    rfl

namespace Catalog

variable {c : Catalog} {root d : Executable}

/-- An executable compiles exactly when all that it reaches can be lowered and refers to nothing unknown. -/
theorem compiles_iff :
    (∃ a, c.compile root = .ok a) ↔ ∀ e, c.Reachable root e →
      (∃ p, e.plan = .ok p) ∧ ∀ s ∈ e.allSteps, ∃ d, c.meaning? root s.reference = some d := by
  constructor
  · rintro ⟨a, h⟩ e he
    obtain ⟨k, p, ps, -, hplanned, -⟩ := compile_eq_ok.1 h
    obtain ⟨q, -, hq⟩ := hplanned.exists_plan he
    exact ⟨⟨q, hq⟩, fun s hs => hplanned.isClosure.meaning e s he hs⟩
  · intro h
    obtain ⟨k, hk⟩ := resolve_eq_ok_iff.2 fun e s he hs => (h e he).2 s hs
    refine compile_eq_ok_iff.2 ⟨k, hk, ?_⟩
    intro e he
    exact (h e (((exact_of_resolve hk).mem_all e).1 he)).1

/-- The plans of an artifact, the root's included, are those of all that is reached and of all branches. -/
theorem plan?_iff {a : Artifact} (h : c.compile root = .ok a) {id : String} {p : Plan} :
    a.plan? id = some p ↔ ((∃ e, c.Reachable root e ∧ e.plan = .ok p) ∨
      ∃ t, c.BranchTarget root t ∧ p = Plan.ofBranch t) ∧ p.id = id := by
  obtain ⟨k, q, ps, -, hplanned, rfl⟩ := compile_eq_ok.1 h
  rw [Artifact.plan?_of hplanned.nodup_ids]
  refine and_congr_left fun _ => ?_
  rw [List.mem_cons, hplanned.mem_others]
  constructor
  · rintro (rfl | ⟨e, he, -, hplan⟩ | hbranch)
    · exact .inl ⟨root, .root, hplanned.root_plan⟩
    · exact .inl ⟨e, he, hplan⟩
    · exact .inr hbranch
  · rintro (⟨e, he, hplan⟩ | hbranch)
    · by_cases hroot : e = root
      · subst hroot
        exact .inl (Except.ok.inj (hplan.symm.trans hplanned.root_plan))
      · exact .inr (.inl ⟨e, he, hroot, hplan⟩)
    · exact .inr (.inr hbranch)

/-- What is stored under a key is found by it. -/
theorem plan?_of_entry {a : Artifact} (h : c.compile root = .ok a) {key : String} {p : Plan}
    (he : (key, p) ∈ a.dependencies.entries) : a.plan? key = some p := by
  obtain ⟨k, q, ps, -, hplanned, rfl⟩ := compile_eq_ok.1 h
  rw [← SortedMap.get?_iff_mem, Artifact.get?_of hplanned.nodup_ids] at he
  exact (Artifact.plan?_of hplanned.nodup_ids key p).2 ⟨List.mem_cons_of_mem _ he.1, he.2⟩

/-- For a root of the catalog its own name means no more than any other. -/
theorem meaning?_stored (hroot : c.get? root.name = some root) (q : QualifiedName) :
    c.meaning? root q = c.get? q := by
  unfold meaning?
  split
  · rename_i hq
    rw [hq, hroot]
  · rfl

section Part

variable (hroot : c.get? root.name = some root) (hd : c.Reachable root d)

include hroot hd

theorem stored_of_reachable : c.get? d.name = some d := by
  cases hd with
  | root => exact hroot
  | step _ _ hmeans =>
    rw [meaning?_stored hroot] at hmeans
    rw [name_of_get? hmeans, hmeans]

theorem meaning?_part (q : QualifiedName) : c.meaning? d q = c.meaning? root q := by
  rw [meaning?_stored hroot, meaning?_stored (stored_of_reachable hroot hd)]

theorem reachable_of_part {e : Executable} (he : c.Reachable d e) : c.Reachable root e := by
  induction he with
  | root => exact hd
  | step _ hs hmeans ih => exact .step ih hs (meaning?_part hroot hd _ ▸ hmeans)

theorem branchTarget_of_part {t : QualifiedName} (ht : c.BranchTarget d t) :
    c.BranchTarget root t := by
  obtain ⟨e, s, he, hs, hp, rfl⟩ := ht
  exact ⟨e, s, reachable_of_part hroot hd he, hs, hp, rfl⟩

theorem compiles_part {a : Artifact} (h : c.compile root = .ok a) : ∃ b, c.compile d = .ok b := by
  rw [compiles_iff]
  intro e he
  simp only [meaning?_part hroot hd]
  exact compiles_iff.1 ⟨a, h⟩ e (reachable_of_part hroot hd he)

/-- Every plan that the part needs is the one that the whole has under the same id. -/
theorem plan?_of_part {a b : Artifact} (h : c.compile root = .ok a) (hb : c.compile d = .ok b)
    {id : String} {p : Plan} (hp : b.plan? id = some p) : a.plan? id = some p := by
  rw [plan?_iff hb] at hp
  rw [plan?_iff h]
  obtain ⟨⟨e, he, hplan⟩ | ⟨t, ht, hbranch⟩, hid⟩ := hp
  · exact ⟨.inl ⟨e, reachable_of_part hroot hd he, hplan⟩, hid⟩
  · exact ⟨.inr ⟨t, branchTarget_of_part hroot hd ht, hbranch⟩, hid⟩

end Part

/-- Each dependency of a root that compiles also compiles on its own, and all plans of its artifact are plans of the
root's artifact. -/
theorem compile_part {a : Artifact} (hroot : c.get? root.name = some root)
    (h : c.compile root = .ok a) :
    ∃ k, c.resolve root = .ok k ∧ ∀ d ∈ k.dependencies, ∃ b, c.compile d = .ok b ∧
      a.plan? d.name.text = some b.root ∧
      ∀ key p, (key, p) ∈ b.dependencies.entries → a.plan? key = some p := by
  obtain ⟨k, _, _, hk, hplanned, -⟩ := compile_eq_ok.1 h
  refine ⟨k, hk, ?_⟩
  intro d hmem
  obtain ⟨hd, -⟩ := (hplanned.isClosure.mem_dependencies d).1 hmem
  obtain ⟨b, hb⟩ := compiles_part hroot hd h
  obtain ⟨_, _, _, -, hown, rfl⟩ := compile_eq_ok.1 hb
  refine ⟨_, hb, ?_, ?_⟩
  · exact (plan?_iff h).2 ⟨.inl ⟨d, hd, hown.root_plan⟩, Executable.id_of_plan hown.root_plan⟩
  · intro key p he
    exact plan?_of_part hroot hd h hb (plan?_of_entry hb he)

end Catalog

/-- The two flows compile to the same plans, whichever of them is the root. -/
theorem relayCatalog_parts : ∃ a b,
    relayCatalog.compile (.flow pingFlow) = .ok a ∧
      relayCatalog.compile (.flow pongFlow) = .ok b ∧ a.plan? "relay.pong" = some b.root ∧
      ∀ key p, (key, p) ∈ b.dependencies.entries → a.plan? key = some p := by
  obtain ⟨a, ha⟩ : ∃ a, relayCatalog.compile (.flow pingFlow) = .ok a := by
    refine Catalog.compile_eq_ok_iff.2 ⟨_, relayCatalog_resolve, ?_⟩
    intro e he
    rcases List.mem_cons.1 he with rfl | he
    · exact ⟨_, rfl⟩
    · obtain rfl := List.mem_singleton.1 he
      exact ⟨_, rfl⟩
  obtain ⟨k, hk, hparts⟩ := Catalog.compile_part rfl ha
  obtain rfl := Except.ok.inj (relayCatalog_resolve.symm.trans hk)
  obtain ⟨b, hb, hroot, hplans⟩ := hparts _ List.mem_cons_self
  exact ⟨a, b, ha, hb, hroot, hplans⟩

end WorkflowCompiler
