import Mathlib.Data.List.Induction
import Mathlib.Data.List.Nodup
import Mathlib.Data.List.Perm.Subperm
import WorkflowCompiler.Proofs.Closure

/-!
The order of the search for what a root needs. It is said without a queue: a list of executables is in breadth-first
order when it consists of the root and of what the list itself refers to, each at its first mention. Every root has
exactly one such order. The search goes through a growing front part of it; it comes to the end when all references
have a meaning, and else stops at the first step of the order whose reference has none.
-/

namespace WorkflowCompiler

section FirstMention

variable {α : Type} [DecidableEq α]

theorem eraseDups_concat (xs : List α) (x : α) :
    (xs ++ [x]).eraseDups = if x ∈ xs then xs.eraseDups else xs.eraseDups ++ [x] := by
  rw [List.eraseDups_append]
  by_cases hx : x ∈ xs
  · simp [List.removeAll, hx]
  · simp [List.removeAll, hx, List.eraseDups_cons]

theorem nodup_eraseDups (xs : List α) : xs.eraseDups.Nodup := by
  induction xs using List.reverseRecOn with
  | nil => simp
  | append_singleton xs x ih =>
    rw [eraseDups_concat]
    split
    · exact ih
    · rename_i hx
      rw [List.nodup_append]
      refine ⟨ih, by simp, ?_⟩
      rintro a ha b hb rfl
      exact hx (List.mem_singleton.1 hb ▸ List.mem_eraseDups.1 ha)

theorem eraseDups_mono {xs ys : List α} (h : xs <+: ys) : xs.eraseDups <+: ys.eraseDups := by
  obtain ⟨zs, rfl⟩ := h
  rw [List.eraseDups_append]
  exact List.prefix_append _ _

end FirstMention

/-- What the steps of an executable refer to, in order. -/
def Executable.references (e : Executable) : List QualifiedName := e.allSteps.map Step.reference

namespace Catalog

variable {c : Catalog} {root e : Executable} {es ds : List Executable}

/-- The root and what the executables of a list refer to, each at its first mention. -/
def referred (c : Catalog) (root : Executable) (es : List Executable) : List Executable :=
  (root.name :: es.flatMap Executable.references).eraseDups.filterMap (c.meaning? root)

/-- The list consists of what it refers to itself, and all of it is needed by the root. Without the second part
executables could be listed that only they themselves refer to. -/
structure BreadthFirst (c : Catalog) (root : Executable) (es : List Executable) : Prop where
  listed : c.referred root es = es
  reachable : ∀ e ∈ es, c.Reachable root e

theorem meaning?_root (c : Catalog) (root : Executable) : c.meaning? root root.name = some root :=
  if_pos rfl

theorem meaning?_eq_none {q : QualifiedName} :
    c.meaning? root q = none ↔ q ≠ root.name ∧ c.get? q = none := by
  unfold meaning?
  split
  · simp [*]
  · simp [*]

theorem mem_of_meaning? {q : QualifiedName} (h : c.meaning? root q = some e) :
    e = root ∨ e ∈ c.executables := by
  unfold meaning? at h
  split at h
  · exact .inl (Option.some.inj h).symm
  · exact .inr (mem_of_get? h)

theorem mem_referred : e ∈ c.referred root es ↔
    e = root ∨ ∃ d ∈ es, ∃ s ∈ d.allSteps, c.meaning? root s.reference = some e := by
  simp only [referred, List.mem_filterMap, List.mem_eraseDups, List.mem_cons, List.mem_flatMap,
    Executable.references, List.mem_map]
  constructor
  · rintro ⟨q, rfl | ⟨d, hd, s, hs, rfl⟩, hq⟩
    · rw [meaning?_root] at hq
      exact .inl (Option.some.inj hq).symm
    · exact .inr ⟨d, hd, s, hs, hq⟩
  · rintro (rfl | ⟨d, hd, s, hs, hq⟩)
    · exact ⟨e.name, .inl rfl, meaning?_root c e⟩
    · exact ⟨s.reference, .inr ⟨d, hd, s, hs, rfl⟩, hq⟩

theorem referred_mono (h : ds <+: es) : c.referred root ds <+: c.referred root es := by
  obtain ⟨rest, rfl⟩ := h
  refine (eraseDups_mono ?_).filterMap _
  rw [List.flatMap_append, ← List.cons_append]
  exact List.prefix_append _ _

theorem root_leads (c : Catalog) (root : Executable) (es : List Executable) :
    [root] <+: c.referred root es := by
  rw [referred, List.eraseDups_cons, List.filterMap_cons_some (meaning?_root c root)]
  exact ⟨_, rfl⟩

/-- No name comes twice. -/
theorem nodup_names_referred (c : Catalog) (root : Executable) (es : List Executable) :
    ((c.referred root es).map Executable.name).Nodup := by
  rw [referred, List.map_filterMap]
  refine (nodup_eraseDups _).filterMap ?_
  intro p q n hp hq
  obtain ⟨d, hd, rfl⟩ := Option.map_eq_some_iff.1 hp
  obtain ⟨e, he, hname⟩ := Option.map_eq_some_iff.1 hq
  rw [← name_of_meaning? hd, ← name_of_meaning? he, hname]

theorem mem_of_reachable (hes : c.referred root es = es) (h : c.Reachable root e) : e ∈ es := by
  induction h with
  | root => exact hes ▸ mem_referred.2 (.inl rfl)
  | step _ hstep hmeans ih => exact hes ▸ mem_referred.2 (.inr ⟨_, ih, _, hstep, hmeans⟩)

/-- A front part of the order that refers to nothing else is all of it. -/
theorem BreadthFirst.eq_of_front (h : c.BreadthFirst root es) (hds : c.referred root ds = ds)
    (hleads : ds <+: es) : ds = es := by
  obtain ⟨rest, rfl⟩ := hleads
  have hnodup := nodup_names_referred c root (ds ++ rest)
  rw [h.listed, List.map_append, List.nodup_append] at hnodup
  cases rest with
  | nil => simp
  | cons x rest =>
    have hx : x ∈ ds := mem_of_reachable hds (h.reachable x (by simp))
    exact absurd rfl (hnodup.2.2 x.name (List.mem_map_of_mem hx) x.name (by simp))

/-- What is known after so many rounds, when each adds all that is referred to. -/
def rounds (c : Catalog) (root : Executable) : Nat → List Executable
  | 0 => [root]
  | n + 1 => c.referred root (rounds c root n)

theorem rounds_grow (c : Catalog) (root : Executable) (n : Nat) :
    c.rounds root n <+: c.rounds root (n + 1) := by
  induction n with
  | zero => exact root_leads c root _
  | succ n ih => exact referred_mono ih

theorem reachable_of_rounds (n : Nat) (h : e ∈ c.rounds root n) : c.Reachable root e := by
  induction n generalizing e with
  | zero =>
    obtain rfl := List.mem_singleton.1 h
    exact .root
  | succ n ih =>
    rcases mem_referred.1 h with rfl | ⟨d, hd, s, hs, hmeans⟩
    · exact .root
    · exact .step (ih hd) hs hmeans

/-- The catalog bounds what can be known. -/
theorem length_referred_le (c : Catalog) (root : Executable) (es : List Executable) :
    (c.referred root es).length ≤ c.size + 1 := by
  have hsub : (c.referred root es).map Executable.name ⊆
      root.name :: c.executables.map Executable.name := by
    intro q hq
    obtain ⟨e, he, rfl⟩ := List.mem_map.1 hq
    rw [List.mem_cons]
    rcases mem_referred.1 he with rfl | ⟨_, _, _, _, hmeans⟩
    · exact .inl rfl
    · exact (mem_of_meaning? hmeans).imp (congrArg Executable.name) List.mem_map_of_mem
  have hle := (List.subperm_of_subset (nodup_names_referred c root es) hsub).length_le
  simpa [size, executables, OrderedMap.size] using hle

/-- The rounds come to an end. -/
theorem exists_stable (c : Catalog) (root : Executable) :
    ∃ n, c.referred root (c.rounds root n) = c.rounds root n := by
  by_contra hnone
  -- If every round added something, the list would outgrow the catalog.
  have hgrows : ∀ n, n < (c.rounds root n).length := by
    intro n
    induction n with
    | zero => simp [rounds]
    | succ n ih =>
      have hleads := rounds_grow c root n
      have hle := hleads.length_le
      have hne : (c.rounds root n).length ≠ (c.rounds root (n + 1)).length := by
        intro heq
        exact hnone ⟨n, (hleads.eq_of_length heq).symm⟩
      omega
  have hlong := hgrows (c.size + 2)
  have hshort := length_referred_le c root (c.rounds root (c.size + 1))
  rw [show c.rounds root (c.size + 2) = c.referred root (c.rounds root (c.size + 1)) from rfl] at hlong
  omega

theorem exists_breadthFirst (c : Catalog) (root : Executable) : ∃ es, c.BreadthFirst root es := by
  obtain ⟨n, hn⟩ := exists_stable c root
  exact ⟨c.rounds root n, hn, fun _ => reachable_of_rounds n⟩

theorem BreadthFirst.unique (hds : c.BreadthFirst root ds) (hes : c.BreadthFirst root es) :
    ds = es := by
  obtain ⟨n, hn⟩ := exists_stable c root
  have hrounds {fs : List Executable} (hfs : c.BreadthFirst root fs) (m : Nat) :
      c.rounds root m <+: fs := by
    induction m with
    | zero => exact hfs.listed ▸ root_leads c root fs
    | succ m ih => exact hfs.listed ▸ referred_mono ih
  rw [← hds.eq_of_front hn (hrounds hds n), hes.eq_of_front hn (hrounds hes n)]

end Catalog

namespace Closure

variable {c : Catalog} {root e : Executable} {s s' : Search} {done queue es : List Executable}

theorem visitStep_listed {flow : QualifiedName} {step : Step} {new? : Option Executable}
    {qs : List QualifiedName} (hs : s.visited.reverse = qs.eraseDups)
    (h : visitStep c flow s step = .ok (s', new?)) :
    s'.visited.reverse = (qs ++ [step.reference]).eraseDups := by
  have hmem : step.reference ∈ s.visited ↔ step.reference ∈ qs := by
    rw [← List.mem_reverse, hs, List.mem_eraseDups]
  rw [eraseDups_concat]
  rcases (visitStep_cases h).2 with ⟨hv, -, hvis, -⟩ | ⟨d, hv, hd, -, hvis, -⟩
  · rw [hvis, hs, if_pos (hmem.1 hv)]
  · rw [hvis, List.reverse_cons, hs, Catalog.name_of_get? hd, if_neg (mt hmem.2 hv)]

/-- Names are entered in the order in which the steps mention them. -/
theorem visitSteps_listed {flow : QualifiedName} {steps : List Step} {new : List Executable}
    {qs : List QualifiedName} (hs : s.visited.reverse = qs.eraseDups)
    (h : visitSteps c flow s steps = .ok (s', new)) :
    s'.visited.reverse = (qs ++ steps.map Step.reference).eraseDups := by
  induction steps generalizing s qs new with
  | nil =>
    obtain ⟨rfl, -⟩ := Prod.mk.inj (Except.ok.inj h)
    simpa using hs
  | cons step r ih =>
    obtain ⟨⟨s₁, new₁⟩, h₁, h⟩ := bind_eq_ok.1 h
    obtain ⟨⟨s₂, new₂⟩, h₂, h⟩ := bind_eq_ok.1 h
    obtain ⟨rfl, -⟩ := Prod.mk.inj (Except.ok.inj h)
    simpa using ih (visitStep_listed hs h₁) h₂

/-- The search has gone through the executables `done`; what it has entered besides waits in the queue. -/
structure Progress (c : Catalog) (root : Executable) (s : Search)
    (done queue : List Executable) : Prop where
  sound : Sound c root s
  entered : root :: s.found.reverse = done ++ queue
  listed : s.visited.reverse = (root.name :: done.flatMap Executable.references).eraseDups

theorem Sound.reverse_visited (hs : Sound c root s) :
    s.visited.reverse = (root :: s.found.reverse).map Executable.name := by
  rw [hs.visited_eq]
  simp

theorem Sound.meaning?_entered (hs : Sound c root s) (he : e ∈ root :: s.found.reverse) :
    c.meaning? root e.name = some e := by
  rcases List.mem_cons.1 he with rfl | he
  · exact Catalog.meaning?_root c e
  · rw [List.mem_reverse] at he
    rw [Catalog.meaning?, if_neg (hs.name_ne_root he), hs.stored e he]

namespace Progress

/-- What has been entered is what `done` refers to. -/
theorem referred_eq (h : Progress c root s done queue) : c.referred root done = done ++ queue := by
  rw [Catalog.referred, ← h.listed, h.sound.reverse_visited, ← h.entered, List.filterMap_map]
  calc (root :: s.found.reverse).filterMap (c.meaning? root ∘ Executable.name)
      = (root :: s.found.reverse).filterMap some :=
        List.filterMap_congr fun e he => h.sound.meaning?_entered he
    _ = root :: s.found.reverse := List.filterMap_some

theorem reachable (h : Progress c root s done queue) (he : e ∈ done ++ queue) :
    c.Reachable root e := by
  rw [← h.entered] at he
  rcases List.mem_cons.1 he with rfl | he
  · exact .root
  · exact h.sound.reachable e (List.mem_reverse.1 he)

theorem exists_meaning (h : Progress c root s done queue) {step : Step} (he : e ∈ done)
    (hstep : step ∈ e.allSteps) : ∃ d, c.meaning? root step.reference = some d := by
  have hvisited : step.reference ∈ s.visited.reverse := by
    rw [h.listed, List.mem_eraseDups]
    refine List.mem_cons_of_mem _ (List.mem_flatMap.2 ⟨e, he, ?_⟩)
    exact List.mem_map_of_mem hstep
  obtain ⟨d, -, hd⟩ := Closure.exists_meaning h.sound (List.mem_reverse.1 hvisited)
  exact ⟨d, hd⟩

theorem next {r new : List Executable} (h : Progress c root s done (e :: r))
    (hvisit : visitSteps c e.name s e.allSteps = .ok (s', new)) :
    Progress c root s' (done ++ [e]) (r ++ new) := by
  have he : c.Reachable root e := h.reachable (by simp)
  obtain ⟨hs', -, -, hf⟩ := visitSteps_sound h.sound he (fun _ hx => hx) hvisit
  refine ⟨hs', ?_, ?_⟩
  · calc root :: s'.found.reverse = (root :: s.found.reverse) ++ new := by simp [hf]
      _ = (done ++ e :: r) ++ new := by rw [h.entered]
      _ = (done ++ [e]) ++ (r ++ new) := by simp
  · rw [visitSteps_listed h.listed hvisit]
    simp [Executable.references]

end Progress

end Closure

/-- The steps of the executables in turn, each with the executable that it belongs to. -/
def callsOf (es : List Executable) : List (Executable × Step) :=
  es.flatMap fun e => e.allSteps.map fun s => (e, s)

/-- The first step whose reference has no meaning. -/
def Catalog.firstDangling? (c : Catalog) (root : Executable) (es : List Executable) :
    Option (Executable × Step) :=
  (callsOf es).find? fun p => (c.meaning? root p.2.reference).isNone

theorem Catalog.firstDangling?_eq_some {c : Catalog} {root e : Executable} {es : List Executable}
    {step : Step} : c.firstDangling? root es = some (e, step) ↔
      c.meaning? root step.reference = none ∧ ∃ front back, callsOf es = front ++ (e, step) :: back ∧
        ∀ p ∈ front, ∃ d, c.meaning? root p.2.reference = some d := by
  simp only [firstDangling?, List.find?_eq_some_iff_append, Option.isNone_iff_eq_none,
    Bool.not_eq_true', Option.isNone_eq_false_iff, Option.isSome_iff_exists]

theorem Catalog.mem_of_firstDangling? {c : Catalog} {root e : Executable} {es : List Executable}
    {step : Step} (h : c.firstDangling? root es = some (e, step)) : e ∈ es ∧ step ∈ e.allSteps := by
  obtain ⟨d, hd, hcall⟩ := List.mem_flatMap.1 (List.mem_of_find?_eq_some h)
  obtain ⟨x, hx, heq⟩ := List.mem_map.1 hcall
  obtain ⟨rfl, rfl⟩ := Prod.mk.inj heq
  exact ⟨hd, hx⟩

/-- What is reported of a step whose reference has no meaning. -/
def Executable.dangling (e : Executable) (s : Step) : CompileError :=
  .unresolvedReference e.name.text s.name s.reference.text

namespace Closure

variable {c : Catalog} {root e : Executable} {s s' : Search} {done queue es : List Executable}

/-- A step that stops the search is the first in the whole order whose reference has no meaning. -/
theorem Progress.firstDangling? {r : List Executable} {err : CompileError}
    (h : Progress c root s done (e :: r)) (hes : done ++ [e] <+: es)
    (herr : visitSteps c e.name s e.allSteps = .error err) :
    ∃ step, c.firstDangling? root es = some (e, step) ∧ err = e.dangling step := by
  obtain ⟨front, step, back, hsplit, hfront, hmeans, rfl⟩ :=
    visitSteps_eq_error h.sound (h.reachable (by simp)) (fun _ hx => hx) herr
  obtain ⟨rest, rfl⟩ := hes
  refine ⟨step, Catalog.firstDangling?_eq_some.2 ⟨hmeans, ?_⟩, rfl⟩
  refine ⟨callsOf done ++ front.map fun x => (e, x), (back.map fun x => (e, x)) ++ callsOf rest, ?_, ?_⟩
  · simp [callsOf, hsplit]
  · rw [List.forall_mem_append]
    constructor
    · intro p hp
      obtain ⟨d, hd, hp⟩ := List.mem_flatMap.1 hp
      obtain ⟨x, hx, rfl⟩ := List.mem_map.1 hp
      exact h.exists_meaning hd hx
    · simpa using hfront

/-- The front of the queue is next in the order. -/
theorem Progress.leads_next {r : List Executable} (h : Progress c root s done (e :: r))
    (hes : c.BreadthFirst root es) (hdone : done <+: es) : done ++ [e] <+: es := by
  have hall : done ++ e :: r <+: es := by
    rw [← h.referred_eq, ← hes.listed]
    exact Catalog.referred_mono hdone
  exact List.IsPrefix.trans ⟨r, by simp⟩ hall

/-- The search goes through the breadth-first order, to its end or to the first step whose reference has no meaning. -/
theorem search_progress (hes : c.BreadthFirst root es) (h : Progress c root s done queue)
    (hdone : done <+: es) :
    (∀ s', search c s queue = .ok s' → Progress c root s' es []) ∧
      ∀ err, search c s queue = .error err →
        ∃ e step, c.firstDangling? root es = some (e, step) ∧ err = e.dangling step := by
  -- Each turn of the search moves the front of the queue to the end of `done`.
  fun_induction search c s queue generalizing done with
  | case1 s =>
    constructor
    · intro s' hs'
      obtain rfl := Except.ok.inj hs'
      have hall : c.referred root done = done := by simpa using h.referred_eq
      rwa [← hes.eq_of_front hall hdone]
    · intro err herr
      cases herr
  | case2 s e r err herr =>
    constructor
    · intro s' hs'
      cases hs'
    · intro err' herr'
      obtain rfl := Except.error.inj herr'
      obtain ⟨step, hstep⟩ := h.firstDangling? (h.leads_next hes hdone) herr
      exact ⟨e, step, hstep⟩
  | case3 s e r s₁ new hvisit _ ih =>
    exact ih (h.next hvisit) (h.leads_next hes hdone)

end Closure

/-- What the closure of a root is, said through its own list: the names of the root and the dependencies are what they
refer to, each at its first mention. -/
structure Closure.Ordered (c : Catalog) (root : Executable) (k : Closure) : Prop where
  root_eq : k.root = root
  names : root.name :: k.dependencies.map Executable.name =
    (root.name :: (root :: k.dependencies).flatMap Executable.references).eraseDups
  stored : ∀ d ∈ k.dependencies, c.get? d.name = some d
  increasing : k.branchTargets.Pairwise (· < ·)
  mem_targets : ∀ q, q ∈ k.branchTargets ↔
    ∃ e ∈ root :: k.dependencies, ∃ s ∈ e.allSteps, s.parallelLoop.isSome ∧ s.reference = q

namespace Catalog

variable {c : Catalog} {root : Executable} {es : List Executable}

theorem progress_start (c : Catalog) (root : Executable) :
    Closure.Progress c root ⟨[root.name], [], []⟩ [] [root] :=
  ⟨c.sound_start root, rfl, rfl⟩

theorem ordered_of_resolve {k : Closure} (hes : c.BreadthFirst root es)
    (h : c.resolve root = .ok k) : k.Ordered c root ∧ root :: k.dependencies = es := by
  have hexact := exact_of_resolve h
  obtain ⟨s, hsearch, h⟩ := bind_eq_ok.1 h
  obtain rfl := Except.ok.inj h
  have hend := (Closure.search_progress hes (c.progress_start root) List.nil_prefix).1 s hsearch
  have horder : root :: s.found.reverse = es := by simpa using hend.entered
  refine ⟨⟨rfl, ?_, ?_, hend.sound.sorted_targets, ?_⟩, horder⟩
  · rw [← List.map_cons, ← hend.sound.reverse_visited, hend.listed, horder]
  · intro d hd
    exact hend.sound.stored d (List.mem_reverse.1 hd)
  · intro q
    rw [hexact.mem_targets, BranchTarget]
    simp only [← hexact.mem_all]
    constructor
    · rintro ⟨e, step, he, hstep, hq⟩
      exact ⟨e, he, step, hstep, hq⟩
    · rintro ⟨e, he, step, hstep, hq⟩
      exact ⟨e, step, he, hstep, hq⟩

theorem resolve_eq_error_iff (hes : c.BreadthFirst root es) {err : CompileError} :
    c.resolve root = .error err ↔
      ∃ e s, c.firstDangling? root es = some (e, s) ∧ err = e.dangling s := by
  have hfirst {err : CompileError} (h : c.resolve root = .error err) :
      ∃ e s, c.firstDangling? root es = some (e, s) ∧ err = e.dangling s := by
    rcases bind_eq_error.1 h with h | ⟨s, -, h⟩
    · exact (Closure.search_progress hes (c.progress_start root) List.nil_prefix).2 err h
    · cases h
  refine ⟨hfirst, ?_⟩
  rintro ⟨e, s, hdangling, rfl⟩
  cases hres : c.resolve root with
  | ok k =>
    obtain ⟨he, hs⟩ := mem_of_firstDangling? hdangling
    obtain ⟨d, hd⟩ := (exact_of_resolve hres).meaning e s (hes.reachable e he) hs
    cases hd.symm.trans (firstDangling?_eq_some.1 hdangling).1
  | error err =>
    obtain ⟨e', s', hdangling', rfl⟩ := hfirst hres
    obtain ⟨rfl, rfl⟩ := Prod.mk.inj (Option.some.inj (hdangling'.symm.trans hdangling))
    rfl

/-- A search fails exactly when some reference that can be reached has no meaning. -/
theorem exists_resolve_error_iff : (∃ err, c.resolve root = .error err) ↔
    ∃ e s, c.Reachable root e ∧ s ∈ e.allSteps ∧ c.meaning? root s.reference = none := by
  have hnot : (∃ err, c.resolve root = .error err) ↔ ¬ ∃ k, c.resolve root = .ok k := by
    cases c.resolve root with
    | error err => simp
    | ok k => simp
  rw [hnot, resolve_eq_ok_iff]
  simp only [not_forall, not_exists, exists_prop, Option.eq_none_iff_forall_ne_some, ne_eq]

/-- Every root has one breadth-first order in a catalog. A search that succeeds finds its executables in that order,
each as the catalog stores it, and all targets of branches among them. It fails exactly when some step that can be
reached refers neither to the root nor to the catalog, and reports the first such step of the order. -/
theorem resolve_breadthFirst (c : Catalog) (root : Executable) :
    ∃ es, (∀ ds, c.BreadthFirst root ds ↔ ds = es) ∧
      (∀ k, c.resolve root = .ok k → k.Ordered c root ∧ root :: k.dependencies = es) ∧
      ((∃ err, c.resolve root = .error err) ↔ ∃ e s, c.Reachable root e ∧ s ∈ e.allSteps ∧
        s.reference ≠ root.name ∧ c.get? s.reference = none) ∧
      ∀ err, c.resolve root = .error err ↔ ∃ e s, c.firstDangling? root es = some (e, s) ∧
        err = .unresolvedReference e.name.text s.name s.reference.text := by
  obtain ⟨es, hes⟩ := exists_breadthFirst c root
  refine ⟨es, ?_, fun k => ordered_of_resolve hes, ?_, fun err => resolve_eq_error_iff hes⟩
  · intro ds
    constructor
    · intro hds
      exact hds.unique hes
    · rintro rfl
      exact hes
  · rw [exists_resolve_error_iff]
    simp only [meaning?_eq_none]

end Catalog

/-- A flow that calls the targets one after the other. -/
def sequenceFlow (name : QualifiedName) (targets : List QualifiedName) : Executable :=
  .flow ⟨name, [], [], ⟨targets.map fun q => ⟨q.name, q, [], none, none, [], [], .empty, false⟩, none, []⟩⟩

def chimeFlow : Executable := sequenceFlow ⟨"clock", "chime", by decide, by decide⟩ []

def tickName : QualifiedName := ⟨"clock", "tick", by decide, by decide⟩

def tockFlow : Executable := sequenceFlow ⟨"clock", "tock", by decide, by decide⟩ [tickName, chimeFlow.name]

def tickFlow : Executable := sequenceFlow tickName [tockFlow.name, tickName]

def clockCatalog : Catalog := .ofDistinct [chimeFlow, tockFlow] (by decide)

def silentCatalog : Catalog := .ofDistinct [tockFlow] (by decide)

theorem tockFlow_reachable (c : Catalog) (h : c.get? tockFlow.name = some tockFlow) :
    c.Reachable tickFlow tockFlow :=
  .step .root List.mem_cons_self h

theorem clockCatalog_order : clockCatalog.BreadthFirst tickFlow [tickFlow, tockFlow, chimeFlow] := by
  have htock := tockFlow_reachable clockCatalog rfl
  have hchime : clockCatalog.Reachable tickFlow chimeFlow :=
    .step htock (List.mem_cons_of_mem _ List.mem_cons_self) rfl
  refine ⟨by with_unfolding_all rfl, ?_⟩
  simp [Catalog.Reachable.root, htock, hchime]

theorem silentCatalog_order : silentCatalog.BreadthFirst tickFlow [tickFlow, tockFlow] := by
  have htock := tockFlow_reachable silentCatalog rfl
  refine ⟨by with_unfolding_all rfl, ?_⟩
  simp [Catalog.Reachable.root, htock]

/-- Two flows that call each other are searched once each; what only the second one calls is found or missed last. -/
theorem tickFlow_resolved :
    (∃ k, clockCatalog.resolve tickFlow = .ok k ∧ k.Ordered clockCatalog tickFlow ∧
      k.dependencies = [tockFlow, chimeFlow]) ∧
    silentCatalog.resolve tickFlow =
      .error (.unresolvedReference "clock.tock" "chime" "clock.chime") := by
  constructor
  · obtain ⟨es, horder, hok, -, herr⟩ := Catalog.resolve_breadthFirst clockCatalog tickFlow
    obtain rfl := (horder _).1 clockCatalog_order
    cases hres : clockCatalog.resolve tickFlow with
    | ok k =>
      obtain ⟨hordered, hdeps⟩ := hok k hres
      exact ⟨k, rfl, hordered, (List.cons.inj hdeps).2⟩
    | error err =>
      obtain ⟨e, s, hdangling, -⟩ := (herr err).1 hres
      cases hdangling
  · obtain ⟨es, horder, -, -, herr⟩ := Catalog.resolve_breadthFirst silentCatalog tickFlow
    obtain rfl := (horder _).1 silentCatalog_order
    exact (herr _).2 ⟨tockFlow, _, by with_unfolding_all rfl, rfl⟩

end WorkflowCompiler
