import WorkflowCompiler.Catalog

/-!
Which executables a root needs. The search is breadth first over the steps of flows and enters each name
once, so cycles of calls do no harm. It ends because every executable that is entered is one of the
catalog's that had not been entered before.
-/

namespace WorkflowCompiler

/-- Keeps a list of names ordered and without repetition. -/
def insertName (q : QualifiedName) : List QualifiedName → List QualifiedName
  | [] => [q]
  | p :: r => if q < p then q :: p :: r else if p < q then p :: insertName q r else p :: r

structure Closure where
  root : Executable
  /-- All executables that the root needs, in the order of discovery. -/
  dependencies : List Executable
  /-- The executables that branches of parallel loops invoke, in the order of names. -/
  branchTargets : List QualifiedName

namespace Closure

/-- What the search knows: the names entered, the executables found (last one first) and the branch targets. -/
structure Search where
  visited : List QualifiedName
  found : List Executable
  targets : List QualifiedName

/-- Looks at one step of a flow. A new executable is returned, to be searched later. -/
def visitStep (c : Catalog) (flow : QualifiedName) (s : Search) (step : Step) :
    Except CompileError (Search × Option Executable) :=
  let targets := if step.parallelLoop.isSome then insertName step.reference s.targets else s.targets
  if step.reference ∈ s.visited then .ok ({ s with targets }, none)
  else
    match c.get? step.reference with
    | none => .error (.unresolvedReference flow.text step.name step.reference.text)
    | some e => .ok (⟨e.name :: s.visited, e :: s.found, targets⟩, some e)

/-- Looks at steps in order; the new executables come out in order. -/
def visitSteps (c : Catalog) (flow : QualifiedName) :
    Search → List Step → Except CompileError (Search × List Executable)
  | s, [] => .ok (s, [])
  | s, step :: r => do
    let (s, new?) ← visitStep c flow s step
    let (s, more) ← visitSteps c flow s r
    return (s, new?.toList ++ more)

/-- How many executables of the catalog have not been entered. -/
def unvisited (c : Catalog) (visited : List QualifiedName) : Nat :=
  c.executables.countP fun e => e.name ∉ visited

theorem countP_unvisited_le (es : List Executable) (q : QualifiedName)
    (visited : List QualifiedName) :
    (es.countP fun e => e.name ∉ q :: visited) ≤ es.countP fun e => e.name ∉ visited := by
  apply List.countP_mono_left
  intro e _ he
  simp only [List.mem_cons, not_or, decide_eq_true_eq] at *
  exact he.2

theorem countP_unvisited_lt {es : List Executable} {e : Executable}
    {visited : List QualifiedName} (he : e ∈ es) (hv : e.name ∉ visited) :
    (es.countP fun d => d.name ∉ e.name :: visited) < es.countP fun d => d.name ∉ visited := by
  induction es with
  | nil => simp at he
  | cons d r ih =>
    have hle := countP_unvisited_le r e.name visited
    rw [List.countP_cons, List.countP_cons]
    rcases List.mem_cons.1 he with rfl | he
    · simp only [List.mem_cons, true_or, not_true_eq_false, decide_false, Bool.false_eq_true,
        if_false, hv, not_false_eq_true, decide_true, if_true] at *
      omega
    · have := ih he
      have hd : (if decide (d.name ∉ e.name :: visited) = true then 1 else 0) ≤
          if decide (d.name ∉ visited) = true then 1 else 0 := by
        by_cases h : d.name ∈ visited <;> by_cases h' : d.name = e.name <;> simp [h, h']
      omega

theorem visitStep_measure {c : Catalog} {flow : QualifiedName} {s s' : Search} {step : Step}
    {new? : Option Executable} (h : visitStep c flow s step = .ok (s', new?)) :
    unvisited c s'.visited + new?.toList.length ≤ unvisited c s.visited := by
  simp only [visitStep] at h
  split at h
  · simp only [Except.ok.injEq, Prod.mk.injEq] at h
    obtain ⟨rfl, rfl⟩ := h
    simp
  · rename_i hv
    split at h
    · simp at h
    · rename_i e he
      simp only [Except.ok.injEq, Prod.mk.injEq] at h
      obtain ⟨rfl, rfl⟩ := h
      have hname : e.name = step.reference := Catalog.name_of_get? he
      have := countP_unvisited_lt (Catalog.mem_of_get? he) (hname ▸ hv)
      simp only [unvisited, Option.toList_some, List.length_singleton]
      omega

theorem visitSteps_measure {c : Catalog} {flow : QualifiedName} {s s' : Search} {steps : List Step}
    {new : List Executable} (h : visitSteps c flow s steps = .ok (s', new)) :
    unvisited c s'.visited + new.length ≤ unvisited c s.visited := by
  induction steps generalizing s s' new with
  | nil =>
    simp only [visitSteps, Except.ok.injEq, Prod.mk.injEq] at h
    obtain ⟨rfl, rfl⟩ := h
    simp
  | cons step r ih =>
    simp only [visitSteps, bind, Except.bind] at h
    split at h
    · simp at h
    · rename_i p hp
      obtain ⟨s1, n1⟩ := p
      have h1 := visitStep_measure hp
      dsimp only at h
      split at h
      · simp at h
      · rename_i p hp
        obtain ⟨s2, n2⟩ := p
        have h2 := ih hp
        simp only [pure, Except.pure, Except.ok.injEq, Prod.mk.injEq] at h
        obtain ⟨rfl, rfl⟩ := h
        simp only [List.length_append]
        omega

/-- Searches the queue from its front; what is new goes to its end. -/
def search (c : Catalog) (s : Search) (queue : List Executable) : Except CompileError Search :=
  match queue with
  | [] => .ok s
  | e :: r =>
    match h : visitSteps c e.name s e.allSteps with
    | .error err => .error err
    | .ok (s', new) =>
      have := visitSteps_measure h
      search c s' (r ++ new)
termination_by unvisited c s.visited + queue.length
decreasing_by simp only [List.length_append, List.length_cons]; omega

end Closure

/-- The closure of a root in a catalog, or the first reference that leads nowhere. -/
def Catalog.resolve (c : Catalog) (root : Executable) : Except CompileError Closure := do
  let s ← Closure.search c ⟨[root.name], [], []⟩ [root]
  return ⟨root, s.found.reverse, s.targets⟩

end WorkflowCompiler
