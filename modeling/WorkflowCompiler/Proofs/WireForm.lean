import WorkflowCompiler.Artifact.Document
import WorkflowCompiler.Proofs.JsonReading

/-!
What is written for an artifact is tidy: no object has a key twice, all numbers are ids of the artifact, and at most
eight containers are inside one another.
-/

namespace WorkflowCompiler

open Json (Tidy)

variable {number : Int → Prop} {depth : Nat}

namespace Json

attribute [simp] Tidy.null Tidy.bool Tidy.str

@[simp] theorem tidy_int {i : Int} : Tidy number depth (.int i) ↔ number i := by
  constructor
  · intro h
    cases h with
    | int h => exact h
  · exact .int

@[simp] theorem tidy_obj {members : List (String × Json)} :
    Tidy number (depth + 1) (.obj members) ↔
      (members.map Prod.fst).Nodup ∧ ∀ m ∈ members, Tidy number depth m.2 := by
  constructor
  · intro h
    cases h with
    | obj hkeys h => exact ⟨hkeys, h⟩
  · rintro ⟨hkeys, h⟩
    exact .obj hkeys h

theorem tidy_arr_map {α : Type} {f : α → Json} (hf : ∀ a, Tidy number depth (f a)) (as : List α) :
    Tidy number (depth + 1) (.arr (as.map f)) := by
  refine .arr fun x hx => ?_
  obtain ⟨a, -, rfl⟩ := List.mem_map.1 hx
  exact hf a

@[simp] theorem tidy_strings (xs : List String) : Tidy number (depth + 1) (.strings xs) :=
  tidy_arr_map Tidy.str xs

end Json

theorem Input.tidy_toJson (i : Input) : Tidy number (depth + 1) i.toJson := by
  cases h : i.fallback with
  | none => simp [toJson, optionalMember, h]
  | some s => simp [toJson, optionalMember, h]

theorem Argument.tidy_toJson (a : Argument) : Tidy number (depth + 1) a.toJson := by
  cases h : a.value with
  | none => simp [toJson, optionalMember, h]
  | some s => simp [toJson, optionalMember, h]

theorem Output.tidy_toJson (o : Output) : Tidy number (depth + 1) o.toJson := by simp [toJson]

theorem ResultDef.tidy_toJson (r : ResultDef) : Tidy number (depth + 1) r.toJson := by
  cases h : r.condition with
  | none => simp [toJson, optionalMember, h]
  | some s => simp [toJson, optionalMember, h]

@[simp] theorem Loop.tidy_toJson (l : Loop) : Tidy number (depth + 2) l.toJson := by simp [toJson]

@[simp] theorem ParallelLoop.tidy_toJson (l : ParallelLoop) :
    Tidy number (depth + 1) l.toJson := by simp [toJson]

@[simp] theorem Action.tidy_toJson (a : Action) : Tidy number (depth + 1) a.toJson := by
  cases a with
  | script text => simp [toJson]
  | native className methodName => simp [toJson]

@[simp] theorem QualifiedName.tidy_toJson (q : QualifiedName) : Tidy number depth q.toJson :=
  .str _

@[simp] theorem BranchOrder.tidy_toJson (o : BranchOrder) : Tidy number depth o.toJson := .str _

@[simp] theorem tidy_inputsJson (is : List Input) : Tidy number (depth + 2) (inputsJson is) :=
  Json.tidy_arr_map Input.tidy_toJson is

@[simp] theorem tidy_argumentsJson (as : List Argument) :
    Tidy number (depth + 2) (argumentsJson as) :=
  Json.tidy_arr_map Argument.tidy_toJson as

@[simp] theorem tidy_outputsJson (os : List Output) : Tidy number (depth + 2) (outputsJson os) :=
  Json.tidy_arr_map Output.tidy_toJson os

@[simp] theorem tidy_resultsJson (rs : List ResultDef) :
    Tidy number (depth + 2) (resultsJson rs) :=
  Json.tidy_arr_map ResultDef.tidy_toJson rs

theorem Jump.tidy_toWire {j : Jump} (h : number j.next) : Tidy number (depth + 1) j.toWire := by
  cases hp : j.preset with
  | none => simp [toWire, optionalJson, hp, h]
  | some s => simp [toWire, optionalJson, hp, h]

/-- The ids that a plan speaks of. -/
def Plan.ids (p : Plan) : List StepId :=
  p.start :: p.steps.keys ++ p.instructions.flatMap fun i => i.id :: i.successors

def Artifact.ids (a : Artifact) : List StepId := a.plans.flatMap Plan.ids

section

variable (hterminal : number terminalId)

include hterminal

/-- A jump goes to a successor or to the end. -/
theorem Navigation.number_next {n : Navigation}
    (h : ∀ id ∈ ((n.entries.map Prod.snd).filter fun j => !j.isTerminal).map Jump.next, number id) :
    ∀ e ∈ n.entries, number e.2.next := by
  intro e he
  by_cases hend : e.2.isTerminal = true
  · have hnext : e.2.next = terminalId := by simpa [Jump.isTerminal] using hend
    rwa [hnext]
  · apply h
    simp only [List.mem_map, List.mem_filter]
    exact ⟨e.2, ⟨⟨e, he, rfl⟩, by simpa using hend⟩, rfl⟩

theorem Navigation.tidy_toWire {n : Navigation}
    (h : ∀ id ∈ ((n.entries.map Prod.snd).filter fun j => !j.isTerminal).map Jump.next,
      number id) : Tidy number (depth + 2) (Navigation.toWire n) := by
  have hkeys : ((n.entries.map fun p => (p.1, p.2.toWire)).map Prod.fst).Nodup := by
    rw [List.map_map]
    exact n.distinct
  refine .obj hkeys fun m hm => ?_
  obtain ⟨e, he, rfl⟩ := List.mem_map.1 hm
  exact Jump.tidy_toWire (number_next hterminal h e he)

theorem Instruction.tidy_actionData {i : Instruction} (h : ∀ id ∈ i.successors, number id) :
    Tidy number (depth + 3) i.actionData := by
  obtain ⟨id, name, task⟩ := i
  cases task with
  | invoke reference arguments loop publish navigation =>
    have hn : Tidy number (depth + 2) (Navigation.toWire navigation) :=
      Navigation.tidy_toWire hterminal h
    cases loop with
    | none => simp [actionData, Task.wireData, hn]
    | some l => simp [actionData, Task.wireData, hn]
  | join aggregate order navigation =>
    have hn : Tidy number (depth + 2) (Navigation.toWire navigation) :=
      Navigation.tidy_toWire hterminal h
    simp [actionData, Task.wireData, hn]
  | branchEnd | operationEnd | bodyEnd => simp [actionData, Task.wireData]
  | _ => simpa [actionData, Task.wireData, successors] using h

theorem Instruction.tidy_toWire {i : Instruction} (hid : number i.id)
    (h : ∀ id ∈ i.successors, number id) : Tidy number (depth + 4) i.toWire := by
  have hdata : Tidy number (depth + 3) i.actionData := tidy_actionData hterminal h
  simp [toWire, hid, hdata]

theorem Plan.tidy_wireSteps {p : Plan} (h : ∀ id ∈ p.ids, number id) :
    Tidy number (depth + 5) (.obj p.wireSteps) := by
  -- The invariant of the loop: the entries so far make a tidy object.
  have hloop (is : List Instruction) (steps : List (String × Json))
      (his : ∀ i ∈ is, ∀ id ∈ i.id :: i.successors, number id)
      (hsteps : Tidy number (depth + 5) (.obj steps)) :
      Tidy number (depth + 5)
        (.obj (is.foldl (fun steps i => putEntry (toString i.id) i.toWire steps) steps)) := by
    induction is generalizing steps with
    | nil => exact hsteps
    | cons i r ih =>
      obtain ⟨hi, hr⟩ := List.forall_mem_cons.1 his
      obtain ⟨hid, hnext⟩ := List.forall_mem_cons.1 hi
      obtain ⟨hkeys, hvalues⟩ := Json.tidy_obj.1 hsteps
      refine ih _ hr (.obj (OrderedMap.insert ⟨steps, hkeys⟩ _ _).distinct ?_)
      intro m hm
      rcases mem_putEntry hm with rfl | hm
      · exact i.tidy_toWire hterminal hid hnext
      · exact hvalues m hm
  refine hloop p.instructions [] ?_ (.obj (by simp) (by simp))
  intro i hi id hid
  exact h id (List.mem_append_right _ (List.mem_flatMap.2 ⟨i, hi, hid⟩))

theorem Plan.tidy_toWire {p : Plan} (h : ∀ id ∈ p.ids, number id) :
    Tidy number (depth + 6) p.toWire := by
  have hstart : number p.start := h p.start (by simp [ids])
  have hsteps : Tidy number (depth + 5) (.obj p.wireSteps) := tidy_wireSteps hterminal h
  rw [toWire]
  refine .obj (by simp) ?_
  simp [hstart, hsteps]

namespace Artifact

variable {a : Artifact} (h : ∀ id ∈ a.ids, number id)

include h

theorem tidy_plan {p : Plan} (hp : p ∈ a.plans) : Tidy number (depth + 6) p.toWire :=
  Plan.tidy_toWire hterminal fun id hid => h id (List.mem_flatMap.2 ⟨p, hp, hid⟩)

theorem tidy_dependencies :
    Tidy number (depth + 7)
      (.obj (a.dependencies.entries.map fun e => (e.1, e.2.toWire))) := by
  have hkeys : ((a.dependencies.entries.map fun e => (e.1, e.2.toWire)).map Prod.fst).Nodup := by
    rw [List.map_map]
    exact nodup_keys_of_increasing a.dependencies.increasing
  refine .obj hkeys fun m hm => ?_
  obtain ⟨e, he, rfl⟩ := List.mem_map.1 hm
  exact tidy_plan hterminal h (List.mem_cons_of_mem _ (List.mem_map_of_mem he))

theorem tidy_document : Tidy number (depth + 8) a.document := by
  have hroot : Tidy number (depth + 7) a.root.toWire := tidy_plan hterminal h List.mem_cons_self
  have hdependencies : Tidy number (depth + 7)
      (.obj (a.dependencies.entries.map fun e => (e.1, e.2.toWire))) :=
    tidy_dependencies hterminal h
  rw [document]
  refine .obj (by simp) ?_
  simp only [List.forall_mem_cons]
  exact ⟨hroot, hdependencies, .str _, by simp⟩

end Artifact

end

/-- All numbers of the wire form are whole, whatever they are. -/
theorem Artifact.whole_toWire (a : Artifact) : a.toWire.Whole := by
  have hdocument : Tidy (fun _ => True) (0 + 8) a.document :=
    tidy_document trivial fun _ _ => trivial
  have hmembers := Json.whole_obj.1 hdocument.whole
  rw [toWire, Json.whole_obj]
  simp only [List.forall_mem_cons] at hmembers ⊢
  exact ⟨hmembers.1, hmembers.2.1, by simp⟩

end WorkflowCompiler
