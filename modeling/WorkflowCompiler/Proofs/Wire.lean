import WorkflowCompiler.Artifact.Document
import WorkflowCompiler.Proofs.Compilation
import WorkflowCompiler.Proofs.WireForm

/-!
The wire form of an artifact determines the artifact, and so does its compact text, of which the fingerprint is
taken. Members that may be left out are told apart by the key of what follows, and a task by its role.
-/

namespace WorkflowCompiler

/-- Lists are equal when their images are and the map tells their elements apart. -/
theorem eq_of_map_eq {α β : Type} {f : α → β} {xs ys : List α}
    (hf : ∀ x ∈ xs, ∀ y ∈ ys, f x = f y → x = y) (h : xs.map f = ys.map f) : xs = ys := by
  induction xs generalizing ys with
  | nil =>
    cases ys with
    | nil => rfl
    | cons y ys => cases h
  | cons x xs ih =>
    cases ys with
    | nil => cases h
    | cons y ys =>
      obtain ⟨hxy, hrest⟩ := List.cons.inj h
      obtain rfl := hf x (by simp) y (by simp) hxy
      rw [ih (fun a ha b hb => hf a (by simp [ha]) b (by simp [hb])) hrest]

theorem Json.arr_map_inj {α : Type} {f : α → Json} (hf : ∀ {x y}, f x = f y → x = y)
    {xs ys : List α} (h : Json.arr (xs.map f) = .arr (ys.map f)) : xs = ys :=
  eq_of_map_eq (fun _ _ _ _ => hf) (Json.arr.inj h)

theorem Json.strings_inj {xs ys : List String} (h : Json.strings xs = .strings ys) : xs = ys :=
  Json.arr_map_inj Json.str.inj h

/-- A member that may be left out is there exactly when its key comes next. -/
theorem optional_append_inj {α : Type} {key : String} {f : α → Json} {a b : Option α}
    {r s : List (String × Json)} (hf : ∀ {x y}, f x = f y → x = y)
    (hr : ∀ m ∈ r.head?, m.1 ≠ key) (hs : ∀ m ∈ s.head?, m.1 ≠ key)
    (h : (a.toList.map fun x => (key, f x)) ++ r = (b.toList.map fun x => (key, f x)) ++ s) :
    a = b ∧ r = s := by
  cases a with
  | none =>
    cases b with
    | none => exact ⟨rfl, h⟩
    | some y =>
      have hhead : r.head? = some (key, f y) := congrArg List.head? h
      exact absurd rfl (hr _ hhead)
  | some x =>
    cases b with
    | none =>
      have hhead : s.head? = some (key, f x) := (congrArg List.head? h).symm
      exact absurd rfl (hs _ hhead)
    | some y =>
      obtain ⟨hxy, hrest⟩ := List.cons.inj h
      rw [hf (Prod.mk.inj hxy).2]
      exact ⟨rfl, hrest⟩

theorem optionalMember_eq (key : String) (o : Option String) :
    optionalMember key o = o.toList.map fun s => (key, .str s) := by
  cases o with
  | none => rfl
  | some s => rfl

theorem optionalMember_append_inj {key : String} {a b : Option String}
    {r s : List (String × Json)} (hr : ∀ m ∈ r.head?, m.1 ≠ key) (hs : ∀ m ∈ s.head?, m.1 ≠ key)
    (h : optionalMember key a ++ r = optionalMember key b ++ s) : a = b ∧ r = s := by
  rw [optionalMember_eq, optionalMember_eq] at h
  exact optional_append_inj Json.str.inj hr hs h

theorem optionalMember_inj {key : String} {a b : Option String}
    (h : optionalMember key a = optionalMember key b) : a = b := by
  have h' : optionalMember key a ++ [] = optionalMember key b ++ [] := by rw [h]
  exact (optionalMember_append_inj (by simp) (by simp) h').1

theorem Input.toJson_inj {i j : Input} (h : i.toJson = j.toJson) : i = j := by
  obtain ⟨name, fallback, required, isPrivate⟩ := i
  obtain ⟨name', fallback', required', isPrivate'⟩ := j
  simp only [toJson, List.cons_append, List.nil_append, Json.obj.injEq, List.cons.injEq,
    Prod.mk.injEq, Json.str.injEq, true_and] at h
  obtain ⟨rfl, h⟩ := h
  obtain ⟨rfl, hmarks⟩ := optionalMember_append_inj (by simp) (by simp) h
  simp only [List.cons.injEq, Prod.mk.injEq, Json.bool.injEq, true_and, and_true] at hmarks
  obtain ⟨rfl, rfl⟩ := hmarks
  rfl

theorem Argument.toJson_inj {a b : Argument} (h : a.toJson = b.toJson) : a = b := by
  obtain ⟨name, value⟩ := a
  obtain ⟨name', value'⟩ := b
  simp only [toJson, List.singleton_append, Json.obj.injEq, List.cons.injEq, Prod.mk.injEq,
    Json.str.injEq, true_and] at h
  obtain ⟨rfl, h⟩ := h
  rw [optionalMember_inj h]

theorem Output.toJson_inj {a b : Output} (h : a.toJson = b.toJson) : a = b := by
  obtain ⟨name, value⟩ := a
  obtain ⟨name', value'⟩ := b
  simpa [toJson] using h

theorem ResultDef.toJson_inj {a b : ResultDef} (h : a.toJson = b.toJson) : a = b := by
  obtain ⟨name, condition⟩ := a
  obtain ⟨name', condition'⟩ := b
  simp only [toJson, List.singleton_append, Json.obj.injEq, List.cons.injEq, Prod.mk.injEq,
    Json.str.injEq, true_and] at h
  obtain ⟨rfl, h⟩ := h
  rw [optionalMember_inj h]

theorem Loop.toJson_inj {a b : Loop} (h : a.toJson = b.toJson) : a = b := by
  obtain ⟨item, expression, breakOn⟩ := a
  obtain ⟨item', expression', breakOn'⟩ := b
  simp only [toJson, Json.obj.injEq, List.cons.injEq, Prod.mk.injEq, Json.str.injEq, true_and,
    and_true] at h
  obtain ⟨rfl, rfl, h⟩ := h
  rw [Json.strings_inj h]

theorem ParallelLoop.toJson_inj {a b : ParallelLoop} (h : a.toJson = b.toJson) : a = b := by
  obtain ⟨item, expression⟩ := a
  obtain ⟨item', expression'⟩ := b
  simpa [toJson] using h

/-- The two kinds of actions have different keys. -/
theorem Action.toJson_inj {a b : Action} (h : a.toJson = b.toJson) : a = b := by
  cases a with
  | script text =>
    cases b with
    | script text' => simpa [toJson] using h
    | native className methodName => simp [toJson] at h
  | native className methodName =>
    cases b with
    | script text => simp [toJson] at h
    | native className' methodName' => simpa [toJson] using h

theorem QualifiedName.toJson_inj {p q : QualifiedName} (h : p.toJson = q.toJson) : p = q :=
  text_inj (Json.str.inj h)

theorem inputsJson_inj {is js : List Input} (h : inputsJson is = inputsJson js) : is = js :=
  Json.arr_map_inj Input.toJson_inj h

theorem argumentsJson_inj {as bs : List Argument} (h : argumentsJson as = argumentsJson bs) :
    as = bs :=
  Json.arr_map_inj Argument.toJson_inj h

theorem outputsJson_inj {os ps : List Output} (h : outputsJson os = outputsJson ps) : os = ps :=
  Json.arr_map_inj Output.toJson_inj h

theorem resultsJson_inj {rs ss : List ResultDef} (h : resultsJson rs = resultsJson ss) : rs = ss :=
  Json.arr_map_inj ResultDef.toJson_inj h

theorem Jump.toWire_inj {a b : Jump} (h : a.toWire = b.toWire) : a = b := by
  obtain ⟨next, preset⟩ := a
  obtain ⟨next', preset'⟩ := b
  simp only [toWire, Json.obj.injEq, List.cons.injEq, Prod.mk.injEq, Json.int.injEq, true_and,
    and_true] at h
  obtain ⟨rfl, h⟩ := h
  cases preset with
  | none =>
    cases preset' with
    | none => rfl
    | some s => cases h
  | some s =>
    cases preset' with
    | none => cases h
    | some s' => rw [Json.str.inj h]

/-- Entries are determined by their written keys and values. -/
theorem entries_inj {κ α : Type} {f : κ → String} {g : α → Json} {es ds : List (κ × α)}
    (hf : ∀ {k k'}, f k = f k' → k = k')
    (hg : ∀ e ∈ es, ∀ d ∈ ds, g e.2 = g d.2 → e.2 = d.2)
    (h : (es.map fun e => (f e.1, g e.2)) = ds.map fun e => (f e.1, g e.2)) : es = ds := by
  refine eq_of_map_eq ?_ h
  intro e he d hd heq
  obtain ⟨hkey, hvalue⟩ := Prod.mk.inj heq
  exact Prod.ext (hf hkey) (hg e he d hd hvalue)

theorem Navigation.toWire_inj {m n : Navigation} (h : Navigation.toWire m = Navigation.toWire n) :
    m = n :=
  OrderedMap.ext (entries_inj (f := fun k => k) id (fun _ _ _ _ => Jump.toWire_inj) (Json.obj.inj h))

/-- The role tells the kind of a task, the data all the rest. -/
theorem Task.eq_of_wireData {t t' : Task} (hrole : t.role = t'.role)
    (h : t.wireData = t'.wireData) : t = t' := by
  cases t with
  | flowBegin inputs next =>
    cases t' with
    | flowBegin inputs' next' =>
      simp only [wireData, List.cons.injEq, Prod.mk.injEq, Json.int.injEq, true_and, and_true] at h
      obtain ⟨hinputs, rfl⟩ := h
      rw [inputsJson_inj hinputs]
    | _ => simp [role] at hrole
  | invoke reference arguments loop publish navigation =>
    cases t' with
    | invoke reference' arguments' loop' publish' navigation' =>
      simp only [wireData, List.cons_append, List.nil_append, List.cons.injEq, Prod.mk.injEq,
        true_and] at h
      obtain ⟨harguments, hreference, h⟩ := h
      obtain ⟨rfl, hrest⟩ := optional_append_inj Loop.toJson_inj (by simp) (by simp) h
      simp only [List.cons.injEq, Prod.mk.injEq, true_and, and_true] at hrest
      rw [argumentsJson_inj harguments, QualifiedName.toJson_inj hreference,
        outputsJson_inj hrest.1, Navigation.toWire_inj hrest.2]
    | _ => simp [role] at hrole
  | split loop branchPlan order next =>
    cases t' with
    | split loop' branchPlan' order' next' =>
      simp only [wireData, List.cons.injEq, Prod.mk.injEq, Json.str.injEq, Json.int.injEq, true_and,
        and_true] at h
      obtain ⟨hloop, rfl, -, rfl⟩ := h
      cases order
      cases order'
      rw [ParallelLoop.toJson_inj hloop]
    | _ => simp [role] at hrole
  | branchBegin reference arguments next =>
    cases t' with
    | branchBegin reference' arguments' next' =>
      simp only [wireData, List.cons.injEq, Prod.mk.injEq, Json.int.injEq, true_and, and_true] at h
      obtain ⟨harguments, hreference, rfl⟩ := h
      rw [argumentsJson_inj harguments, QualifiedName.toJson_inj hreference]
    | _ => simp [role] at hrole
  | branchEnd reference publish =>
    cases t' with
    | branchEnd reference' publish' =>
      simp only [wireData, List.cons.injEq, Prod.mk.injEq, true_and, and_true] at h
      rw [QualifiedName.toJson_inj h.1, outputsJson_inj h.2]
    | _ => simp [role] at hrole
  | join aggregate order navigation =>
    cases t' with
    | join aggregate' order' navigation' =>
      simp only [wireData, List.cons.injEq, Prod.mk.injEq, true_and, and_true] at h
      cases order
      cases order'
      rw [outputsJson_inj h.1, Navigation.toWire_inj h.2]
    | _ => simp [role] at hrole
  | operationBegin inputs next =>
    cases t' with
    | operationBegin inputs' next' =>
      simp only [wireData, List.cons.injEq, Prod.mk.injEq, Json.int.injEq, true_and, and_true] at h
      obtain ⟨hinputs, rfl⟩ := h
      rw [inputsJson_inj hinputs]
    | _ => simp [role] at hrole
  | runAction action next =>
    cases t' with
    | runAction action' next' =>
      simp only [wireData, List.cons.injEq, Prod.mk.injEq, Json.int.injEq, true_and, and_true] at h
      obtain ⟨haction, rfl⟩ := h
      rw [Action.toJson_inj haction]
    | _ => simp [role] at hrole
  | operationEnd outputs results =>
    cases t' with
    | operationEnd outputs' results' =>
      simp only [wireData, List.cons.injEq, Prod.mk.injEq, true_and, and_true] at h
      rw [outputsJson_inj h.1, resultsJson_inj h.2]
    | _ => simp [role] at hrole
  | bodyBegin reference next =>
    cases t' with
    | bodyBegin reference' next' =>
      simp only [wireData, List.cons.injEq, Prod.mk.injEq, Json.int.injEq, true_and, and_true] at h
      obtain ⟨hreference, rfl⟩ := h
      rw [QualifiedName.toJson_inj hreference]
    | _ => simp [role] at hrole
  | bodyEnd reference =>
    cases t' with
    | bodyEnd reference' =>
      simp only [wireData, List.cons.injEq, Prod.mk.injEq, true_and, and_true] at h
      rw [QualifiedName.toJson_inj h]
    | _ => simp [role] at hrole

theorem Instruction.toWire_inj {i j : Instruction} (h : i.toWire = j.toWire) : i = j := by
  obtain ⟨id, name, task⟩ := i
  obtain ⟨id', name', task'⟩ := j
  simp only [toWire, actionData, List.cons_append, Json.obj.injEq, List.cons.injEq, Prod.mk.injEq,
    Json.int.injEq, Json.str.injEq, true_and, and_true] at h
  obtain ⟨rfl, rfl, hrole, hdata⟩ := h
  rw [Task.eq_of_wireData hrole (List.append_inj' hdata rfl).1]

theorem PlanKind.text_inj {k k' : PlanKind} (h : k.text = k'.text) : k = k' := by
  cases k with
  | flow =>
    cases k' with
    | flow => rfl
    | _ => simp [text] at h
  | operation =>
    cases k' with
    | operation => rfl
    | _ => simp [text] at h
  | branch =>
    cases k' with
    | branch => rfl
    | _ => simp [text] at h

namespace Plan

/-- The text of the ids keeps the instructions apart, so all of them are written. -/
theorem Keyed.wireSteps_eq {p : Plan} (h : p.Keyed) :
    p.wireSteps = p.steps.entries.map fun e => (toString e.1, e.2.toWire) := by
  have hkeys : (p.steps.entries.map fun e => toString e.2.id).Nodup := by
    have hids : (p.steps.entries.map fun e => toString e.2.id) =
        (p.steps.entries.map Prod.fst).map toString := by
      rw [List.map_map]
      apply List.map_congr_left
      intro e he
      rw [Function.comp_apply, h e he]
    rw [hids, List.Nodup, List.pairwise_map]
    exact (nodup_keys_of_increasing p.steps.increasing).imp fun hne heq => hne (Json.toString_int_inj heq)
  rw [wireSteps, instructions, SortedMap.values, List.foldl_map, foldl_putEntry hkeys]
  apply List.map_congr_left
  intro e he
  rw [h e he]

theorem toWire_inj {p q : Plan} (hp : p.Keyed) (hq : q.Keyed) (h : p.toWire = q.toWire) :
    p = q := by
  have hsteps : p.toWire = q.toWire → p.steps = q.steps := by
    intro h
    simp only [toWire, hp.wireSteps_eq, hq.wireSteps_eq, Json.obj.injEq, List.cons.injEq,
      Prod.mk.injEq, true_and, and_true] at h
    exact SortedMap.ext (entries_inj Json.toString_int_inj
      (fun _ _ _ _ => Instruction.toWire_inj) h.2.2.2.2.2.2)
  obtain ⟨id, name, kind, start, steps, outputs, results⟩ := p
  obtain ⟨id', name', kind', start', steps', outputs', results'⟩ := q
  obtain rfl := hsteps h
  simp only [toWire, Json.obj.injEq, List.cons.injEq, Prod.mk.injEq, Json.str.injEq,
    Json.int.injEq, true_and, and_true] at h
  obtain ⟨rfl, rfl, hkind, rfl, houtputs, hresults, -⟩ := h
  rw [PlanKind.text_inj hkind, outputsJson_inj houtputs, Json.strings_inj hresults]

end Plan

namespace Artifact

theorem toWire_inj {a b : Artifact} (ha : a.Keyed) (hb : b.Keyed) (h : a.toWire = b.toWire) :
    a = b := by
  obtain ⟨root, dependencies⟩ := a
  obtain ⟨root', dependencies'⟩ := b
  simp only [toWire, Json.obj.injEq, List.cons.injEq, Prod.mk.injEq, true_and, and_true] at h
  obtain ⟨hroot, hdependencies⟩ := h
  have hr : root = root' := Plan.toWire_inj (ha root (by simp [plans])) (hb root' (by simp [plans])) hroot
  have hd : dependencies = dependencies' := by
    refine SortedMap.ext (entries_inj (f := fun k => k) id ?_ hdependencies)
    intro e he d hd
    refine Plan.toWire_inj (ha e.2 ?_) (hb d.2 ?_)
    · exact List.mem_cons_of_mem _ (List.mem_map_of_mem he)
    · exact List.mem_cons_of_mem _ (List.mem_map_of_mem hd)
  rw [hr, hd]

end Artifact

/-- The text that is fingerprinted determines the artifact. -/
theorem Artifact.compact_toWire_iff {a b : Artifact} (ha : a.Keyed) (hb : b.Keyed) :
    a.toWire.compact = b.toWire.compact ↔ a = b := by
  constructor
  · intro h
    exact toWire_inj ha hb (Json.compact_inj a.whole_toWire b.whole_toWire h)
  · rintro rfl
    rfl

/-- An operation with one input. -/
def greetOperation (fallback : Option String) : Operation where
  name := ⟨"hall", "greet", by decide, by decide⟩
  inputs := [⟨"who", fallback, false, false⟩]
  outputs := []
  results := [⟨"SUCCESS", none⟩]
  action := .script "greet"

/-- No fallback and an empty one are told apart. -/
theorem greetOperation_text : ∃ a b,
    Catalog.empty.compile (.operation (greetOperation none)) = .ok a ∧
      Catalog.empty.compile (.operation (greetOperation (some ""))) = .ok b ∧
      a.toWire.compact ≠ b.toWire.compact := by
  have hnone := Catalog.compile_operation .empty (greetOperation none)
  have hsome := Catalog.compile_operation .empty (greetOperation (some ""))
  refine ⟨_, _, hnone, hsome, ?_⟩
  intro h
  have heq := (Artifact.compact_toWire_iff (Catalog.keyed_of_compile hnone)
    (Catalog.keyed_of_compile hsome)).1 h
  exact absurd heq (by decide)

end WorkflowCompiler
