import Mathlib.Data.List.Count
import Mathlib.Data.List.Induction
import WorkflowCompiler.Proofs.Validation

/-!
How repeated names are reported. Reading a list of names from left to right, a name is reported when it comes for the
second time and never again. So each repeated name of a flow has one entry in the report, and that entry cannot be
mistaken for another one by its text.
-/

namespace WorkflowCompiler

section Repeated

/-- At this place the name comes for the second time. -/
def SecondAt (names : List String) (i : Nat) (n : String) : Prop :=
  names[i]? = some n ∧ (names.take i).count n = 1

theorem SecondAt.lt {names : List String} {i : Nat} {n : String} (h : SecondAt names i n) :
    i < names.length := by
  obtain ⟨hi, -⟩ := List.getElem?_eq_some_iff.1 h.1
  exact hi

/-- What comes later does not matter. -/
theorem SecondAt.append {names : List String} {i : Nat} {n : String} (h : SecondAt names i n)
    (more : List String) : SecondAt (names ++ more) i n := by
  refine ⟨?_, ?_⟩
  · rw [List.getElem?_append_left h.lt]
    exact h.1
  · rw [List.take_append_of_le_length (Nat.le_of_lt h.lt)]
    exact h.2

/-- One name more is reported if it was seen, but has not been reported. -/
theorem duplicatesFrom_concat (seen reported names : List String) (n : String) :
    duplicatesFrom seen reported (names ++ [n]) = duplicatesFrom seen reported names ++
      if (n ∈ seen ∨ n ∈ names) ∧ n ∉ reported ∧ n ∉ duplicatesFrom seen reported names then [n]
      else [] := by
  induction names generalizing seen reported with
  | nil =>
    simp only [List.nil_append, duplicatesFrom]
    grind
  | cons m r ih =>
    simp only [List.cons_append, duplicatesFrom]
    split
    · split
      · rw [ih]
        grind
      · rw [ih]
        grind
    · rw [ih]
      grind

theorem mem_duplicates_iff_count {names : List String} {n : String} :
    n ∈ duplicates names ↔ 2 ≤ names.count n := by
  rw [mem_duplicates, List.duplicate_iff_two_le_count]

theorem duplicates_concat (names : List String) (n : String) :
    duplicates (names ++ [n]) = duplicates names ++ if names.count n = 1 then [n] else [] := by
  have honce : n ∈ names ∧ n ∉ duplicates names ↔ names.count n = 1 := by
    rw [mem_duplicates_iff_count, ← List.one_le_count_iff]
    omega
  rw [duplicates, duplicatesFrom_concat]
  congr 2
  simpa [duplicates] using honce

/-- The names that are to be reported: those that come twice or more, each once, in the order in which they come for the
second time. -/
structure Repeats (names reported : List String) : Prop where
  exactly : ∀ n, n ∈ reported ↔ 2 ≤ names.count n
  once : reported.Nodup
  ordered : ∃ places : List Nat, places.Pairwise (· < ·) ∧ List.Forall₂ (SecondAt names) places reported

theorem nodup_duplicates (names : List String) : (duplicates names).Nodup := by
  induction names using List.reverseRecOn with
  | nil => exact List.nodup_nil
  | append_singleton names n ih =>
    rw [duplicates_concat]
    split
    · rename_i hcount
      have hnew : n ∉ duplicates names := by
        rw [mem_duplicates_iff_count]
        omega
      simpa [List.nodup_append, ih] using fun m hm => ne_of_mem_of_not_mem hm hnew
    · rwa [List.append_nil]

theorem places_of_duplicates (names : List String) :
    ∃ places : List Nat, places.Pairwise (· < ·) ∧
      List.Forall₂ (SecondAt names) places (duplicates names) := by
  induction names using List.reverseRecOn with
  | nil => exact ⟨[], .nil, .nil⟩
  | append_singleton names n ih =>
    obtain ⟨places, hincreasing, hplaces⟩ := ih
    have hold : List.Forall₂ (SecondAt (names ++ [n])) places (duplicates names) :=
      hplaces.imp fun _ _ h => h.append [n]
    rw [duplicates_concat]
    split
    · rename_i hcount
      -- The new place is beyond all others, since they lie in what was read before.
      have hlast : SecondAt (names ++ [n]) names.length n := by
        refine ⟨?_, ?_⟩
        · simp
        · rwa [List.take_left]
      have hbound : ∀ i ∈ places, i < names.length :=
        ((List.forall₂_and_left _ _).1 (hplaces.imp fun _ _ h => ⟨h.lt, h⟩)).1
      refine ⟨places ++ [names.length], ?_, List.rel_append hold (.cons hlast .nil)⟩
      rw [List.pairwise_append]
      exact ⟨hincreasing, List.pairwise_singleton _ _, by simpa using hbound⟩
    · rw [List.append_nil]
      exact ⟨places, hincreasing, hold⟩

theorem repeats_duplicates (names : List String) : Repeats names (duplicates names) where
  exactly _ := mem_duplicates_iff_count
  once := nodup_duplicates names
  ordered := places_of_duplicates names

end Repeated

section Texts

theorem head?_toList_append {s : String} {c : Char} (h : s.toList.head? = some c) (r : String) :
    (s ++ r).toList.head? = some c := by
  rw [String.toList_append, List.head?_append, h]
  rfl

theorem append_ne_append {s r s' r' : String} {c c' : Char} (hs : s.toList.head? = some c)
    (hs' : s'.toList.head? = some c') (hne : c ≠ c') : s ++ r ≠ s' ++ r' := by
  intro h
  have hc : some c = some c' := by
    rw [← head?_toList_append hs r, ← head?_toList_append hs' r', h]
  exact hne (Option.some.inj hc)

/-- The letter with which a kind of names is written. -/
def NameKind.initial : NameKind → Char
  | .input => 'i'
  | .output => 'o'
  | .result => 'r'

theorem NameKind.head?_text (kind : NameKind) : kind.text.toList.head? = some kind.initial := by
  cases kind <;> rfl

theorem NameKind.eq_of_initial {kind other : NameKind} (h : kind.initial = other.initial) :
    kind = other := by
  cases kind <;> cases other <;> simp_all [initial]

namespace SourceProblem

/-- The letter with which the text of a problem begins. -/
def initial : SourceProblem → Char
  | .invalidNamespace _ | .invalidAlias _ | .invalidImport _ _ | .invalidFlowName _
  | .invalidOperationName _ => 'i'
  | .bothKinds | .neitherKind | .emptyStepName | .badReference _ _ | .boundTwice _ _ => 's'
  | .noSteps _ | .flowWithoutResults _ => 'f'
  | .operationWithoutResults _ => 'o'
  | .emptyName kind => kind.initial
  | .duplicateStep _ | .duplicateName _ _ => 'd'

theorem head?_message (p : SourceProblem) : p.message.toList.head? = some p.initial := by
  cases p with
  | bothKinds | neitherKind | emptyStepName => rfl
  | emptyName kind => cases kind <;> rfl
  | badReference => exact head?_toList_append (head?_toList_append (head?_toList_append rfl _) _) _
  | invalidImport | boundTwice =>
    exact head?_toList_append (head?_toList_append (head?_toList_append (head?_toList_append rfl _) _) _) _
  | duplicateName kind name =>
    exact head?_toList_append (head?_toList_append (head?_toList_append (head?_toList_append rfl _) _) _) _
  | _ => exact head?_toList_append (head?_toList_append rfl _) _

theorem initial_eq_of_message {p q : SourceProblem} (h : p.message = q.message) :
    p.initial = q.initial := by
  rw [← Option.some.injEq, ← head?_message, ← head?_message, h]

/-- No other problem has the same text. -/
def Telling (p : SourceProblem) : Prop := ∀ q : SourceProblem, q.message = p.message → q = p

theorem duplicate_of_initial {p : SourceProblem} (h : p.initial = 'd') :
    (∃ n, p = .duplicateStep n) ∨ ∃ kind n, p = .duplicateName kind n := by
  cases p with
  | duplicateStep n => exact .inl ⟨n, rfl⟩
  | duplicateName kind n => exact .inr ⟨kind, n, rfl⟩
  | emptyName kind => exact absurd h (by cases kind <;> decide)
  | _ => exact absurd h (by simp [initial])


theorem message_duplicateStep (n : String) :
    (duplicateStep n).message = "duplicate " ++ ("step name '" ++ (n ++ "'")) := by
  have hopening : "duplicate step name '" = "duplicate " ++ "step name '" := by decide
  change "duplicate step name '" ++ n ++ "'" = _
  rw [hopening, String.append_assoc, String.append_assoc]

theorem message_duplicateName (kind : NameKind) (n : String) :
    (duplicateName kind n).message = "duplicate " ++ (kind.text ++ (" name '" ++ (n ++ "'"))) := by
  change "duplicate " ++ kind.text ++ " name '" ++ n ++ "'" = _
  rw [String.append_assoc, String.append_assoc, String.append_assoc]

theorem message_duplicate_ne (kind : NameKind) (m n : String) :
    (duplicateName kind m).message ≠ (duplicateStep n).message := by
  rw [message_duplicateStep, message_duplicateName, Ne, String.append_right_inj]
  exact append_ne_append kind.head?_text rfl (by cases kind <;> decide)

theorem telling_duplicateStep (n : String) : (duplicateStep n).Telling := by
  intro q h
  rcases duplicate_of_initial (initial_eq_of_message h) with ⟨m, rfl⟩ | ⟨kind, m, rfl⟩
  · rw [message_duplicateStep, message_duplicateStep, String.append_right_inj,
      String.append_right_inj, String.append_left_inj] at h
    rw [h]
  · exact absurd h (message_duplicate_ne kind m n)

theorem telling_duplicateName (kind : NameKind) (n : String) : (duplicateName kind n).Telling := by
  intro q h
  rcases duplicate_of_initial (initial_eq_of_message h) with ⟨m, rfl⟩ | ⟨other, m, rfl⟩
  · exact absurd h.symm (message_duplicate_ne kind n m)
  · rw [message_duplicateName, message_duplicateName, String.append_right_inj] at h
    obtain rfl : other = kind := by
      by_contra hne
      exact append_ne_append other.head?_text kind.head?_text (mt NameKind.eq_of_initial hne) h
    rw [String.append_right_inj, String.append_right_inj, String.append_left_inj] at h
    rw [h]

/-- Whether the problem is that a name is repeated. -/
def isRepetition : SourceProblem → Bool
  | .boundTwice _ _ | .duplicateStep _ | .duplicateName _ _ => true
  | _ => false

/-- In one step's report the step is known, so the text tells which input is meant. -/
theorem eq_of_message_boundTwice {s : Source} {d : StepDecl} {n : String} {q : SourceProblem}
    (hq : q ∈ s.stepProblems d) (h : q.message = (boundTwice d.name n).message) :
    q = boundTwice d.name n := by
  have hbound (m : String) : (boundTwice d.name m).message =
      "step " ++ ("'" ++ (d.name ++ ("'" ++ (" binds input '" ++ (m ++ "' twice"))))) := by
    have hopening : "step '" = "step " ++ "'" := by decide
    have hmiddle : "' binds input '" = "'" ++ " binds input '" := by decide
    change "step '" ++ d.name ++ "' binds input '" ++ m ++ "' twice" = _
    rw [hopening, hmiddle]
    simp only [String.append_assoc]
  rw [hbound] at h
  rcases Source.mem_stepProblems.1 hq with hempty | he | hm
  · have hopening : emptyStepName.message = "step " ++ ("name must not be empty" ++ "") := by decide
    rw [hopening, String.append_right_inj] at h
    exact absurd h (append_ne_append rfl rfl (by decide))
  · rename_i e
    have hreference : (badReference d.name e).message =
        "step " ++ ("'" ++ (d.name ++ ("'" ++ (": " ++ e.message)))) := by
      have hopening : "step '" = "step " ++ "'" := by decide
      have hmiddle : "': " = "'" ++ ": " := by decide
      change "step '" ++ d.name ++ "': " ++ e.message = _
      rw [hopening, hmiddle]
      simp only [String.append_assoc]
    rw [hreference] at h
    simp only [String.append_right_inj] at h
    exact absurd h (append_ne_append rfl rfl (by decide))
  · rename_i m
    rw [hbound] at h
    simp only [String.append_right_inj, String.append_left_inj] at h
    rw [h]

/-- Where no other problem has the text, the text is there as often as the problem. -/
theorem count_map_message {p : SourceProblem} {ps : List SourceProblem}
    (h : ∀ q ∈ ps, q.message = p.message → q = p) : (ps.map message).count p.message = ps.count p := by
  rw [List.count, List.countP_map, List.count]
  apply List.countP_congr
  intro q hq
  simp only [Function.comp_apply, beq_iff_eq]
  exact ⟨h q hq, congrArg message⟩

end SourceProblem

end Texts

section Reports

open SourceProblem

theorem count_problemIf {bad : Bool} {p q : SourceProblem} (h : p ≠ q) :
    (problemIf bad q).count p = 0 := by
  rw [List.count_eq_zero, mem_problemIf]
  exact fun hmem => h hmem.2

theorem count_map_duplicates {g : String → SourceProblem} (hg : Function.Injective g)
    (names : List String) (n : String) :
    ((duplicates names).map g).count (g n) = if 2 ≤ names.count n then 1 else 0 := by
  rw [List.count_map_of_injective _ _ hg, (nodup_duplicates names).count]
  simp only [mem_duplicates_iff_count]

theorem count_nameProblems (kind other : NameKind) (names : List String) (n : String) :
    (nameProblems kind names).count (.duplicateName other n) =
      if kind = other then (if 2 ≤ names.count n then 1 else 0) else 0 := by
  split
  · rename_i hkind
    subst hkind
    have hempty : ((names.filter (· = "")).map fun _ => emptyName kind).count
        (.duplicateName kind n) = 0 := by
      simp [List.count_eq_zero]
    rw [nameProblems, List.count_append, hempty, Nat.zero_add]
    exact count_map_duplicates (fun _ _ h => (duplicateName.inj h).2) names n
  · rename_i hkind
    rw [List.count_eq_zero, mem_nameProblems]
    intro hfault
    cases hfault
    exact hkind rfl

/-- What a flow declares of a kind. -/
def FlowDecl.namesOf (f : FlowDecl) : NameKind → List String
  | .input => f.inputs.map Input.name
  | .output => f.outputs.map Output.name
  | .result => f.results

namespace Source

variable {s : Source} {f : FlowDecl}

theorem count_stepProblems (s : Source) (d : StepDecl) (step n : String) :
    (s.stepProblems d).count (.boundTwice step n) =
      if d.name = step ∧ 2 ≤ (d.inputs.map Argument.name).count n then 1 else 0 := by
  have hreference : (s.referenceProblems d).count (.boundTwice step n) = 0 := by
    rw [List.count_eq_zero, mem_referenceProblems]
    rintro ⟨e, -, h⟩
    cases h
  rw [stepProblems, List.count_append, List.count_append, count_problemIf (by simp), hreference]
  by_cases hname : d.name = step
  · subst hname
    rw [count_map_duplicates (fun _ _ h => (boundTwice.inj h).2)]
    simp
  · rw [List.count_eq_zero.2]
    · simp [hname]
    · simp [hname]

/-- Repetitions are reported for steps and in the lists of names, and nowhere else. -/
theorem count_repetition (hf : s.flow = some f) (hop : s.operation = none) {p : SourceProblem}
    (hp : p.isRepetition = true) :
    s.problems.count p = (f.allSteps.flatMap s.stepProblems).count p +
      ((duplicates (f.allSteps.map StepDecl.name)).map duplicateStep).count p +
      (nameProblems .input (f.inputs.map Input.name)).count p +
      (nameProblems .output (f.outputs.map Output.name)).count p +
      (nameProblems .result f.results).count p := by
  have hother {bad : Bool} {q : SourceProblem} (hq : q.isRepetition = false) :
      p ∉ problemIf bad q := by
    rw [mem_problemIf]
    rintro ⟨-, rfl⟩
    cases hp.symm.trans hq
  have himports : p ∉ s.importProblems := by
    rw [importProblems, List.mem_flatMap]
    rintro ⟨e, -, hmem⟩
    exact (List.mem_append.1 hmem).elim (hother rfl) (hother rfl)
  simp only [problems, kindProblems, hf, hop, flowProblems, List.count_append]
  rw [List.count_eq_zero.2 himports, List.count_eq_zero.2 (hother rfl),
    List.count_eq_zero.2 (hother rfl), List.count_eq_zero.2 (hother rfl),
    List.count_eq_zero.2 (hother rfl)]
  omega

theorem count_flatMap_stepProblems (s : Source) (ds : List StepDecl) (step n : String) :
    (ds.flatMap s.stepProblems).count (.boundTwice step n) =
      ds.countP fun d => d.name = step ∧ 2 ≤ (d.inputs.map Argument.name).count n := by
  induction ds with
  | nil => rfl
  | cons d r ih =>
    rw [List.flatMap_cons, List.count_append, ih, count_stepProblems, List.countP_cons, Nat.add_comm]
    simp only [decide_eq_true_eq]

/-- Each repeated name is reported once, and no other name is. -/
structure ReportsOnce (s : Source) (f : FlowDecl) : Prop where
  steps : ∀ n, (s.problems.map message).count (duplicateStep n).message =
    if 2 ≤ (f.allSteps.map StepDecl.name).count n then 1 else 0
  names : ∀ kind n, (s.problems.map message).count (duplicateName kind n).message =
    if 2 ≤ (f.namesOf kind).count n then 1 else 0
  /-- Once for each step that binds the input twice. -/
  bound : ∀ step n, s.problems.count (boundTwice step n) =
    f.allSteps.countP fun d => d.name = step ∧ 2 ≤ (d.inputs.map Argument.name).count n
  boundTexts : ∀ d ∈ f.allSteps, ∀ n,
    ((s.stepProblems d).map message).count (boundTwice d.name n).message =
      if 2 ≤ (d.inputs.map Argument.name).count n then 1 else 0

theorem count_duplicateStep (hf : s.flow = some f) (hop : s.operation = none) (n : String) :
    s.problems.count (.duplicateStep n) =
      if 2 ≤ (f.allSteps.map StepDecl.name).count n then 1 else 0 := by
  have hsteps : duplicateStep n ∉ f.allSteps.flatMap s.stepProblems := by
    rw [List.mem_flatMap]
    rintro ⟨d, -, hmem⟩
    cases mem_stepProblems.1 hmem
  have hnames (kind : NameKind) (names : List String) :
      duplicateStep n ∉ nameProblems kind names := by
    intro hmem
    cases mem_nameProblems.1 hmem
  rw [count_repetition hf hop rfl, List.count_eq_zero.2 hsteps,
    List.count_eq_zero.2 (hnames _ _), List.count_eq_zero.2 (hnames _ _),
    List.count_eq_zero.2 (hnames _ _), count_map_duplicates fun _ _ => duplicateStep.inj]
  omega

theorem count_duplicateName (hf : s.flow = some f) (hop : s.operation = none) (kind : NameKind)
    (n : String) :
    s.problems.count (.duplicateName kind n) = if 2 ≤ (f.namesOf kind).count n then 1 else 0 := by
  have hsteps : duplicateName kind n ∉ f.allSteps.flatMap s.stepProblems := by
    rw [List.mem_flatMap]
    rintro ⟨d, -, hmem⟩
    cases mem_stepProblems.1 hmem
  have hnames : duplicateName kind n ∉
      (duplicates (f.allSteps.map StepDecl.name)).map duplicateStep := by
    simp
  rw [count_repetition hf hop rfl, List.count_eq_zero.2 hsteps, List.count_eq_zero.2 hnames]
  cases kind <;> simp [count_nameProblems] <;> rfl

theorem count_boundTwice (hf : s.flow = some f) (hop : s.operation = none) (step n : String) :
    s.problems.count (.boundTwice step n) =
      f.allSteps.countP fun d => d.name = step ∧ 2 ≤ (d.inputs.map Argument.name).count n := by
  have hsteps : boundTwice step n ∉
      (duplicates (f.allSteps.map StepDecl.name)).map duplicateStep := by
    simp
  have hnames (kind : NameKind) (names : List String) :
      boundTwice step n ∉ nameProblems kind names := by
    intro hmem
    cases mem_nameProblems.1 hmem
  rw [count_repetition hf hop rfl, List.count_eq_zero.2 hsteps,
    List.count_eq_zero.2 (hnames _ _), List.count_eq_zero.2 (hnames _ _),
    List.count_eq_zero.2 (hnames _ _), count_flatMap_stepProblems]
  omega

theorem reportsOnce (hf : s.flow = some f) (hop : s.operation = none) : s.ReportsOnce f where
  steps n := by
    rw [count_map_message fun q _ => telling_duplicateStep n q]
    exact count_duplicateStep hf hop n
  names kind n := by
    rw [count_map_message fun q _ => telling_duplicateName kind n q]
    exact count_duplicateName hf hop kind n
  bound := count_boundTwice hf hop
  boundTexts d _ n := by
    rw [count_map_message fun q hq => eq_of_message_boundTwice hq, count_stepProblems]
    simp

end Source

/-- A name is given as repeated exactly if it comes twice or more, once and where it comes for the second time; so the
report on a flow has each repeated name of steps, inputs, outputs and results once, and each input that a step binds
twice once for that step. -/
theorem repetition_exact :
    (∀ names, Repeats names (duplicates names)) ∧
      ∀ (s : Source) (f : FlowDecl), s.flow = some f → s.operation = none → s.ReportsOnce f := by
  constructor
  · intro names
    exact repeats_duplicates names
  · intro s f hf hop
    exact Source.reportsOnce hf hop

def crowdedFlow : FlowDecl where
  name := "crowd"
  inputs := [⟨"in", none, true, false⟩, ⟨"in", none, true, false⟩]
  outputs := []
  results := [success, failure]
  workflow := ["x", "y", "y", "x", "x"].map fun name =>
    ⟨name, "work", [⟨"host", none⟩, ⟨"host", none⟩, ⟨"host", none⟩], none, none, [], [], .empty, none⟩
  onFailure := some ⟨"y", "work", [], none, none, [], [], .empty, none⟩

/-- The second `y` comes before the second `x`. The input is bound three times in five steps, three of them called `x`. -/
theorem crowdedFlow_reported :
    duplicates ["x", "y", "y", "x", "x", "y"] = ["y", "x"] ∧
      Repeats ["x", "y", "y", "x", "x", "y"] ["y", "x"] ∧
      ∃ s : Source, s.flow = some crowdedFlow ∧ s.operation = none ∧ s.ReportsOnce crowdedFlow ∧
        (s.problems.map SourceProblem.message).count "duplicate step name 'y'" = 1 ∧
        (s.problems.map SourceProblem.message).count "duplicate input name 'in'" = 1 ∧
        s.problems.count (.boundTwice "x" "host") = 3 := by
  have hnames : duplicates ["x", "y", "y", "x", "x", "y"] = ["y", "x"] := by decide
  obtain ⟨hrepeats, hreports⟩ := repetition_exact
  have hreport := hreports ⟨"app", .empty, some crowdedFlow, none⟩ crowdedFlow rfl rfl
  refine ⟨hnames, hnames ▸ hrepeats _, ⟨"app", .empty, some crowdedFlow, none⟩, rfl, rfl, hreport,
    ?_, ?_, ?_⟩
  · exact (hreport.steps "y").trans (by decide)
  · exact (hreport.names .input "in").trans (by decide)
  · exact (hreport.bound "x" "host").trans (by decide)

end Reports

end WorkflowCompiler
