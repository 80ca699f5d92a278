import WorkflowCompiler.Proofs.ArtifactFile

/-!
Stored plans and artifacts are read back as they were written, for all values that can be stored and not only for
those that lowering gives. The members of a record are taken one after the other; each fills a part that is
still empty, and at the end no needed part is missing. A task is told by its role, an instruction by the number
in its key. The text of a stored form, in either layout, is read as the form itself.
-/

namespace WorkflowCompiler

open Json (Decoded Setting Tidy)

/-- The members are read in turn, each into its own part. -/
inductive Shape.Reads {ν σ τ : Type} (s : Shape ν (Except DecodeError) σ τ) :
    List (String × ν) → σ → σ → Prop where
  | done {parts : σ} : Reads s [] parts parts
  | member {α : Type} {key : String} {v : ν} {r : List (String × ν)} {parts parts' : σ}
      {get : σ → Option α} {set : σ → α → σ} {read : ν → Except DecodeError α} {hasDefault : Bool} {a : α}
      (hfield : s.field? key = some (.of key get set read hasDefault))
      (hempty : (get parts).isSome = false) (hread : read v = .ok a)
      (hrest : Reads s r (set parts a) parts') : Reads s ((key, v) :: r) parts parts'

theorem Shape.Reads.readMembers {ν σ τ : Type} {s : Shape ν (Except DecodeError) σ τ}
    {members : List (String × ν)} {parts parts' : σ} (h : s.Reads members parts parts') :
    s.readMembers members parts = .ok parts' := by
  induction h with
  | done => rfl
  | member hfield hempty hread _ ih =>
    simpa [Shape.readMembers, hfield, Field.of, hempty, hread, bind, Except.bind, pure, Except.pure]
      using ih

namespace Json

theorem readRecord_of_reads {σ τ : Type} {s : Shape Json Decoded σ τ}
    {members : List (String × Json)} {parts : σ} {a : τ} (setting : Setting)
    (h : s.Reads members s.start parts) (hfinish : s.finish parts = .ok a) :
    readRecord setting s (.obj members) = .ok a := by
  simp only [readRecord, h.readMembers]
  exact hfinish

theorem readInt_int {i : Int} (h : IsStored i) : readInt (.int i) = .ok i := by
  rw [readInt, if_pos h.2]

theorem readName_toJson (q : QualifiedName) : readName q.toJson = .ok q := by
  simp only [readName, QualifiedName.toJson, readText, bind, Except.bind]
  exact mapError_eq_ok.2 q.parse_text

theorem readOptional_optionalJson {α : Type} {read : Json → Decoded α} {f : α → Json}
    (hnull : ∀ a, f a ≠ .null) (hread : ∀ a, read (f a) = .ok a) (o : Option α) :
    readOptional read (optionalJson f o) = .ok o := by
  cases o with
  | none => rfl
  | some a =>
    rw [optionalJson, readOptional, hread]
    · rfl
    · exact hnull a

theorem readList_map {α : Type} {read : Json → Decoded α} {f : α → Json} {as : List α}
    (h : ∀ a, read (f a) = .ok a) : readList read (.arr (as.map f)) = .ok as := by
  rw [readList, mapM_eq_ok, List.map_map]
  exact List.map_congr_left fun a _ => h a

theorem readMembers_map {α : Type} {read : Json → Decoded α} {f : α → Json}
    {es : List (String × α)} (h : ∀ e ∈ es, read (f e.2) = .ok e.2) :
    readMembers read (.obj (es.map fun e => (e.1, f e.2))) = .ok es := by
  rw [readMembers, mapM_eq_ok, List.map_map]
  apply List.map_congr_left
  intro e he
  simp only [Function.comp_apply, h e he]
  rfl

/-- The number in a key is read back. -/
theorem readNumberKey_toString {i : Int} (h : IsStored i) : readNumberKey (toString i) = .ok i := by
  have hnumeral := readNumeral_intText i (t := []) (by simp [Stops])
  have htoken := token_intText h.isWord
  obtain ⟨c, r, hc, -, hlead⟩ := intText_cons i
  have hstart : startsLikeNumber (intText i) = true := by
    rw [hc]
    rcases hlead with rfl | hdigit
    · rfl
    · simp [startsLikeNumber, hdigit]
  have hlt : ¬ (Nat.pow 2 63 : Nat) ≤ i := Int.not_le.2 h.2
  rw [List.append_nil] at hnumeral
  simp only [readNumberKey, toList_toString, hstart, hnumeral, htoken, hlt]
  rfl

end Json

section Declarations

variable (setting : Setting)

theorem Input.read_toJson (i : Input) : read (Json.format setting) i.toJson = .ok i := by
  obtain ⟨name, fallback, required, isPrivate⟩ := i
  cases fallback with
  | none => rfl
  | some s => rfl

theorem Argument.read_toJson (a : Argument) : read (Json.format setting) a.toJson = .ok a := by
  obtain ⟨name, value⟩ := a
  cases value with
  | none => rfl
  | some s => rfl

theorem Output.read_toJson (o : Output) : read (Json.format setting) o.toJson = .ok o := rfl

theorem ResultDef.read_toJson (r : ResultDef) : read (Json.format setting) r.toJson = .ok r := by
  obtain ⟨name, condition⟩ := r
  cases condition with
  | none => rfl
  | some s => rfl

theorem Loop.read_toJson (l : Loop) : read (Json.format setting) l.toJson = .ok l := by
  have hbreak : Json.readList Json.readText (.strings l.breakOn) = .ok l.breakOn :=
    Json.readList_map fun _ => rfl
  exact Json.readRecord_of_reads setting
    (.member rfl rfl rfl (.member rfl rfl rfl (.member rfl rfl hbreak .done))) rfl

theorem ParallelLoop.read_toJson (l : ParallelLoop) :
    read (Json.format setting) l.toJson = .ok l := rfl

/-- An action has no tag: a script is tried first, and the fields of the other kind do not make one. -/
theorem Action.read_toJson (a : Action) : read (Json.format setting) a.toJson = .ok a := by
  cases a with
  | script text => rfl
  | native className methodName => rfl

end Declarations

namespace Jump

theorem read_toRecord {j : Jump} (h : IsStored j.next) :
    Json.readRecord .setAside shape j.toRecord = .ok j := by
  have hpreset : Json.readOptional Json.readText (optionalJson .str j.preset) = .ok j.preset :=
    Json.readOptional_optionalJson (f := Json.str) nofun (fun _ => rfl) j.preset
  exact Json.readRecord_of_reads .setAside
    (.member rfl rfl (Json.readInt_int h) (.member rfl rfl hpreset .done)) rfl

end Jump

theorem Navigation.read_toRecord {n : Navigation} (h : ∀ e ∈ n.entries, IsStored e.2.next) :
    Json.readTable (Json.readRecord .setAside Jump.shape) (Navigation.toRecord n) = .ok n := by
  have hmembers : Json.readMembers (Json.readRecord .setAside Jump.shape) (Navigation.toRecord n) =
      .ok n.entries :=
    Json.readMembers_map fun e he => Jump.read_toRecord (h e he)
  have hentries : OrderedMap.ofList n.entries = n := OrderedMap.ext (OrderedMap.entries_ofList n.distinct)
  rw [Json.readTable, hmembers]
  exact congrArg Except.ok hentries

namespace Task

/-- The role of a task selects the shape by which its fields are read. -/
theorem ofRecord_of_reads {t : Task} {s : Shape Json Decoded Parts Task} {parts : Parts}
    (hs : shapes.lookup t.role = some s) (h : s.Reads t.fields s.start parts)
    (hfinish : s.finish parts = .ok t) : ofRecord t.toRecord = .ok t := by
  have hrole : shapeOfRole (.str t.role) = .ok s := by rw [shapeOfRole, hs]
  have hfields : (("role", Json.str t.role) :: t.fields).filter (fun m => m.1 != "role") =
      t.fields := by
    cases t with
    | _ => rfl
  simp only [ofRecord, toRecord, List.lookup_cons, beq_self_eq_true, hrole, hfields]
  exact Json.readRecord_of_reads .setAside h hfinish

variable {inputs : List Input} {arguments : List Argument} {outputs : List Output}
  {results : List ResultDef} {loop : Option Loop}

theorem read_inputs : Json.readList (Input.read aside) (inputsJson inputs) = .ok inputs :=
  Json.readList_map (Input.read_toJson .setAside)

theorem read_arguments :
    Json.readList (Argument.read aside) (argumentsJson arguments) = .ok arguments :=
  Json.readList_map (Argument.read_toJson .setAside)

theorem read_outputs : Json.readList (Output.read aside) (outputsJson outputs) = .ok outputs :=
  Json.readList_map (Output.read_toJson .setAside)

theorem read_results : Json.readList (ResultDef.read aside) (resultsJson results) = .ok results :=
  Json.readList_map (ResultDef.read_toJson .setAside)

theorem read_loop :
    Json.readOptional (Loop.read aside) (optionalJson Loop.toJson loop) = .ok loop :=
  Json.readOptional_optionalJson nofun (Loop.read_toJson .setAside) loop

end Task

/-- Each kind of task is read back from its own fields. -/
theorem Instruction.task_ofRecord {i : Instruction} (h : ∀ id ∈ i.successors, IsStored id) :
    Task.ofRecord i.task.toRecord = .ok i.task := by
  obtain ⟨id, name, task⟩ := i
  have hzero : IsStored terminalId := by decide
  cases task with
  | flowBegin inputs next =>
    have hnext := Json.readInt_int (h next List.mem_cons_self)
    exact Task.ofRecord_of_reads rfl
      (.member rfl rfl Task.read_inputs (.member rfl rfl hnext .done)) rfl
  | invoke reference arguments loop publish navigation =>
    have hnavigation := Navigation.read_toRecord (Navigation.number_next hzero h)
    exact Task.ofRecord_of_reads rfl
      (.member rfl rfl (Json.readName_toJson reference) (.member rfl rfl Task.read_arguments
        (.member rfl rfl Task.read_loop (.member rfl rfl Task.read_outputs
          (.member rfl rfl hnavigation .done))))) rfl
  | split loop branchPlan order next =>
    have hnext := Json.readInt_int (h next List.mem_cons_self)
    cases order
    exact Task.ofRecord_of_reads rfl
      (.member rfl rfl (loop.read_toJson .setAside) (.member rfl rfl rfl (.member rfl rfl rfl
        (.member rfl rfl hnext .done)))) rfl
  | branchBegin reference arguments next =>
    have hnext := Json.readInt_int (h next List.mem_cons_self)
    exact Task.ofRecord_of_reads rfl
      (.member rfl rfl (Json.readName_toJson reference) (.member rfl rfl Task.read_arguments
        (.member rfl rfl hnext .done))) rfl
  | branchEnd reference publish =>
    exact Task.ofRecord_of_reads rfl
      (.member rfl rfl (Json.readName_toJson reference) (.member rfl rfl Task.read_outputs .done)) rfl
  | join aggregate order navigation =>
    have hnavigation := Navigation.read_toRecord (Navigation.number_next hzero h)
    cases order
    exact Task.ofRecord_of_reads rfl
      (.member rfl rfl Task.read_outputs (.member rfl rfl rfl (.member rfl rfl hnavigation .done))) rfl
  | operationBegin inputs next =>
    have hnext := Json.readInt_int (h next List.mem_cons_self)
    exact Task.ofRecord_of_reads rfl
      (.member rfl rfl Task.read_inputs (.member rfl rfl hnext .done)) rfl
  | runAction action next =>
    have hnext := Json.readInt_int (h next List.mem_cons_self)
    exact Task.ofRecord_of_reads rfl
      (.member rfl rfl (action.read_toJson .setAside) (.member rfl rfl hnext .done)) rfl
  | operationEnd outputs results =>
    exact Task.ofRecord_of_reads rfl
      (.member rfl rfl Task.read_outputs (.member rfl rfl Task.read_results .done)) rfl
  | bodyBegin reference next =>
    have hnext := Json.readInt_int (h next List.mem_cons_self)
    exact Task.ofRecord_of_reads rfl
      (.member rfl rfl (Json.readName_toJson reference) (.member rfl rfl hnext .done)) rfl
  | bodyEnd reference =>
    exact Task.ofRecord_of_reads rfl (.member rfl rfl (Json.readName_toJson reference) .done) rfl

namespace Instruction

theorem ofRecord_toRecord {i : Instruction} (h : ∀ id ∈ i.id :: i.successors, IsStored id) :
    ofRecord i.toRecord = .ok i := by
  obtain ⟨hid, hsuccessors⟩ := List.forall_mem_cons.1 h
  exact Json.readRecord_of_reads .direct
    (.member rfl rfl (Json.readInt_int hid) (.member rfl rfl rfl
      (.member rfl rfl (task_ofRecord hsuccessors) .done))) rfl

end Instruction

namespace Plan

variable {p : Plan}

/-- All ids of the plan can be stored. -/
def Storable (p : Plan) : Prop := ∀ id ∈ p.ids, IsStored id

instance (p : Plan) : Decidable p.Storable :=
  inferInstanceAs (Decidable (∀ id ∈ p.ids, IsStored id))

theorem Storable.start (h : p.Storable) : IsStored p.start := h p.start (by simp [ids])

theorem Storable.key (h : p.Storable) {e : StepId × Instruction} (he : e ∈ p.steps.entries) :
    IsStored e.1 := by
  apply h
  exact List.mem_append_left _ (List.mem_cons_of_mem _ (List.mem_map_of_mem he))

theorem Storable.instruction (h : p.Storable) {e : StepId × Instruction}
    (he : e ∈ p.steps.entries) : ∀ id ∈ e.2.id :: e.2.successors, IsStored id := by
  intro id hid
  apply h
  exact List.mem_append_right _ (List.mem_flatMap.2 ⟨e.2, List.mem_map_of_mem he, hid⟩)

theorem stepsOfRecord_toRecord (h : p.Storable) :
    stepsOfRecord (.obj (p.steps.entries.map fun e => (toString e.1, e.2.toRecord))) =
      .ok p.steps := by
  have hentries : (p.steps.entries.map fun e => (toString e.1, e.2.toRecord)).mapM (fun m => do
      let id ← Json.readNumberKey m.1
      let i ← Instruction.ofRecord m.2
      return (id, i)) = .ok p.steps.entries := by
    rw [mapM_eq_ok, List.map_map]
    apply List.map_congr_left
    intro e he
    simp only [Function.comp_apply, Json.readNumberKey_toString (h.key he),
      Instruction.ofRecord_toRecord (h.instruction he)]
    rfl
  have hsteps : SortedMap.ofList p.steps.entries = p.steps :=
    SortedMap.ext (SortedMap.entries_ofList _ p.steps.increasing)
  rw [stepsOfRecord, hentries]
  exact congrArg Except.ok hsteps

theorem readChoice_kind (kind : PlanKind) :
    Json.readChoice .direct PlanKind.choices (.str kind.text) = .ok kind := by
  cases kind with
  | _ => rfl

theorem ofRecord_toRecord (h : p.Storable) : ofRecord p.toRecord = .ok p := by
  have hstart := Json.readInt_int h.start
  have houtputs : Json.readList (Output.read (Json.format .direct)) (outputsJson p.outputs) =
      .ok p.outputs :=
    Json.readList_map (Output.read_toJson .direct)
  have hresults : Json.readList Json.readText (.strings p.results) = .ok p.results :=
    Json.readList_map fun _ => rfl
  exact Json.readRecord_of_reads .direct
    (.member rfl rfl rfl (.member rfl rfl rfl (.member rfl rfl (readChoice_kind p.kind)
      (.member rfl rfl hstart (.member rfl rfl (stepsOfRecord_toRecord h)
        (.member rfl rfl houtputs (.member rfl rfl hresults .done))))))) rfl

end Plan

namespace Artifact

variable {a : Artifact}

theorem Storable.plan (h : a.Storable) {p : Plan} (hp : p ∈ a.plans) : p.Storable :=
  fun id hid => h id (List.mem_flatMap.2 ⟨p, hp, hid⟩)

theorem ofRecord_toRecord (h : a.Storable) : ofRecord a.toRecord = .ok a := by
  have hroot := Plan.ofRecord_toRecord (h.plan List.mem_cons_self)
  have hmembers : Json.readMembers Plan.ofRecord
      (.obj (a.dependencies.entries.map fun e => (e.1, e.2.toRecord))) =
        .ok a.dependencies.entries :=
    Json.readMembers_map fun e he =>
      Plan.ofRecord_toRecord (h.plan (List.mem_cons_of_mem _ (List.mem_map_of_mem he)))
  have hentries : SortedMap.ofList a.dependencies.entries = a.dependencies :=
    SortedMap.ext (SortedMap.entries_ofList _ a.dependencies.increasing)
  refine Json.readRecord_of_reads .direct
    (.member rfl rfl hroot (.member (a := a.dependencies) rfl rfl ?_ .done)) rfl
  rw [hmembers]
  exact congrArg Except.ok hentries

end Artifact

section Text

variable {number : Int → Prop} {depth : Nat}

theorem tidy_optionalJson {α : Type} {f : α → Json} (h : ∀ a, Tidy number depth (f a))
    (o : Option α) : Tidy number depth (optionalJson f o) := by
  cases o with
  | none => exact .null
  | some a => exact h a

theorem Jump.tidy_toRecord {j : Jump} (h : number j.next) : Tidy number (depth + 1) j.toRecord := by
  have hpreset : Tidy number depth (optionalJson .str j.preset) := tidy_optionalJson .str j.preset
  simp [toRecord, h, hpreset]

theorem Navigation.tidy_toRecord {n : Navigation} (h : ∀ e ∈ n.entries, number e.2.next) :
    Tidy number (depth + 2) (Navigation.toRecord n) := by
  have hkeys : ((n.entries.map fun p => (p.1, p.2.toRecord)).map Prod.fst).Nodup := by
    rw [List.map_map]
    exact n.distinct
  refine .obj hkeys fun m hm => ?_
  obtain ⟨e, he, rfl⟩ := List.mem_map.1 hm
  exact Jump.tidy_toRecord (h e he)

variable (hterminal : number terminalId)

include hterminal

theorem Instruction.tidy_task {i : Instruction} (h : ∀ id ∈ i.successors, number id) :
    Tidy number (depth + 3) i.task.toRecord := by
  obtain ⟨id, name, task⟩ := i
  cases task with
  | invoke reference arguments loop publish navigation =>
    have hn : Tidy number (depth + 2) (Navigation.toRecord navigation) :=
      Navigation.tidy_toRecord (Navigation.number_next hterminal h)
    have hl : Tidy number (depth + 2) (optionalJson Loop.toJson loop) :=
      tidy_optionalJson Loop.tidy_toJson loop
    simp [Task.toRecord, Task.fields, hn, hl]
  | join aggregate order navigation =>
    have hn : Tidy number (depth + 2) (Navigation.toRecord navigation) :=
      Navigation.tidy_toRecord (Navigation.number_next hterminal h)
    simp [Task.toRecord, Task.fields, hn]
  | branchEnd | operationEnd | bodyEnd => simp [Task.toRecord, Task.fields]
  | _ => simpa [Task.toRecord, Task.fields, successors] using h

theorem Plan.tidy_toRecord {p : Plan} (h : ∀ id ∈ p.ids, number id) :
    Tidy number (depth + 6) p.toRecord := by
  have hstart : number p.start := h p.start (by simp [ids])
  have hkeys : ((p.steps.entries.map fun e => (toString e.1, e.2.toRecord)).map Prod.fst).Nodup := by
    rw [List.map_map, List.Nodup, List.pairwise_map]
    refine p.steps.increasing.imp ?_
    intro d e hlt heq
    exact absurd (Json.toString_int_inj heq) (Int.ne_of_lt hlt)
  have hsteps : Tidy number (depth + 5)
      (.obj (p.steps.entries.map fun e => (toString e.1, e.2.toRecord))) := by
    refine .obj hkeys fun m hm => ?_
    obtain ⟨e, he, rfl⟩ := List.mem_map.1 hm
    have hids : ∀ id ∈ e.2.id :: e.2.successors, number id := by
      intro id hid
      apply h
      exact List.mem_append_right _ (List.mem_flatMap.2 ⟨e.2, List.mem_map_of_mem he, hid⟩)
    obtain ⟨hid, hsuccessors⟩ := List.forall_mem_cons.1 hids
    have htask : Tidy number (depth + 3) e.2.task.toRecord := Instruction.tidy_task hterminal hsuccessors
    simp [Instruction.toRecord, hid, htask]
  rw [toRecord]
  refine .obj (by simp) ?_
  simp only [List.forall_mem_cons]
  exact ⟨.str _, .str _, .str _, .int hstart, hsteps, tidy_outputsJson _, Json.tidy_strings _, by simp⟩

theorem Artifact.tidy_toRecord {a : Artifact} (h : ∀ id ∈ a.ids, number id) :
    Tidy number (depth + 8) a.toRecord := by
  have hplan {p : Plan} {depth : Nat} (hp : p ∈ a.plans) : Tidy number (depth + 6) p.toRecord :=
    Plan.tidy_toRecord hterminal fun id hid => h id (List.mem_flatMap.2 ⟨p, hp, hid⟩)
  have hroot : Tidy number (depth + 7) a.root.toRecord := hplan List.mem_cons_self
  have hkeys : ((a.dependencies.entries.map fun e => (e.1, e.2.toRecord)).map Prod.fst).Nodup := by
    rw [List.map_map]
    exact nodup_keys_of_increasing a.dependencies.increasing
  have hdependencies : Tidy number (depth + 7)
      (.obj (a.dependencies.entries.map fun e => (e.1, e.2.toRecord))) := by
    refine .obj hkeys fun m hm => ?_
    obtain ⟨e, he, rfl⟩ := List.mem_map.1 hm
    exact hplan (List.mem_cons_of_mem _ (List.mem_map_of_mem he))
  rw [toRecord]
  refine .obj (by simp) ?_
  simp [hroot, hdependencies]

end Text

/-- A tidy value is read back from both of its texts. -/
theorem Json.parse_texts {j : Json} (h : Tidy IsWord Machine.maxDepth j) :
    parse j.compact = some j ∧ parse j.pretty = some j := by
  have hread {layout : Layout} (hlayout : layout.Blank) :
      parse (String.ofList (render layout 0 j)) = some j := by
    rw [← List.append_nil (render layout 0 j)]
    exact parse_render hlayout h 0 (by simp)
  exact ⟨hread Layout.blank_compact, hread Layout.blank_indented⟩

/-- Every plan and every artifact comes back from its stored form, and the stored form from both of its texts. -/
theorem stored_form_read_back :
    (∀ p : Plan, p.Storable → Plan.ofRecord p.toRecord = .ok p ∧
      Json.parse p.toRecord.compact = some p.toRecord ∧
      Json.parse p.toRecord.pretty = some p.toRecord) ∧
    ∀ a : Artifact, a.Storable → Artifact.ofRecord a.toRecord = .ok a ∧
      Json.parse a.toRecord.compact = some a.toRecord ∧
      Json.parse a.toRecord.pretty = some a.toRecord := by
  have hzero : Json.IsWord terminalId := IsStored.isWord (by decide)
  constructor
  · intro p hp
    have htidy : Tidy Json.IsWord (121 + 6) p.toRecord :=
      Plan.tidy_toRecord hzero fun id hid => (hp id hid).isWord
    exact ⟨Plan.ofRecord_toRecord hp, Json.parse_texts htidy⟩
  · intro a ha
    have htidy : Tidy Json.IsWord (119 + 8) a.toRecord :=
      Artifact.tidy_toRecord hzero fun id hid => (ha id hid).isWord
    exact ⟨Artifact.ofRecord_toRecord ha, Json.parse_texts htidy⟩

/-- A plan that no lowering gives: its keys are not the ids of the instructions, and its jumps lead nowhere. -/
def oddPlan : Plan where
  id := "odd \"plan\""
  name := ""
  kind := .branch
  start := -9223372036854775808
  steps := .ofList [
    (-9223372036854775808, ⟨7, "again", .invoke ⟨"app.odd", "turn", by decide, by decide⟩
      [⟨"x", none⟩, ⟨"y", some ""⟩] (some ⟨"x", "xs", []⟩) [⟨"y", "x"⟩]
      (.ofList [("SUCCESS", ⟨9223372036854775807, some "x"⟩), ("FAILURE", ⟨0, none⟩)])⟩),
    (0, ⟨-1, "", .runAction (.native "Clock" "tick") 0⟩),
    (12, ⟨12, "", .operationEnd [] [⟨"SUCCESS", none⟩, ⟨"LATE", some "late"⟩]⟩)]
  outputs := []
  results := ["x", "x"]

theorem oddPlan_read_back :
    oddPlan.Storable ∧ Plan.ofRecord oddPlan.toRecord = .ok oddPlan ∧
      Artifact.ofRecord (Artifact.toRecord ⟨oddPlan, .ofList [("key", oddPlan)]⟩) =
        .ok ⟨oddPlan, .ofList [("key", oddPlan)]⟩ := by
  have hplan : oddPlan.Storable := by decide
  have hartifact : Artifact.Storable ⟨oddPlan, .ofList [("key", oddPlan)]⟩ := by decide
  exact ⟨hplan, (stored_form_read_back.1 _ hplan).1, (stored_form_read_back.2 _ hartifact).1⟩

end WorkflowCompiler
