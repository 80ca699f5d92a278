import WorkflowCompiler.Proofs.Validation

/-!
What a reference stands for. It is written out with the namespace that completes it and then read as a name. The
first dot of the reference decides which namespace that is and the last dot of the text where the simple name
begins; both cuts leave the parts between dots as they are, so a reference in a source with proper namespaces is
accepted by its own parts alone.
-/

namespace WorkflowCompiler

namespace Text

variable {sep : Char} {cs before after : List Char}

theorem cutFirst_append (after : List Char) (h : sep ∉ before) :
    cutFirst sep (before ++ sep :: after) = some (before, after) := by
  induction before with
  | nil => simp [cutFirst]
  | cons c r ih =>
    obtain ⟨hc, hr⟩ := not_or.1 (mt List.mem_cons.2 h)
    rw [List.cons_append, cutFirst, if_neg (Ne.symm hc), ih hr]
    rfl

theorem cutFirst_eq_none (h : sep ∉ cs) : cutFirst sep cs = none := by
  induction cs with
  | nil => rfl
  | cons c r ih =>
    obtain ⟨hc, hr⟩ := not_or.1 (mt List.mem_cons.2 h)
    rw [cutFirst, if_neg (Ne.symm hc), ih hr]
    rfl

end Text

/-- The parts of a text between its dots. -/
def dotParts (s : String) : List (List Char) := s.toList.splitOn '.'

theorem dotParts_append (s t : String) : dotParts (s ++ "." ++ t) = dotParts s ++ dotParts t := by
  have hdot : (s ++ "." ++ t).toList = s.toList ++ '.' :: t.toList := by simp
  rw [dotParts, hdot, List.splitOn_append_cons_self]
  rfl

theorem dotParts_ne_nil (s : String) : dotParts s ≠ [] := List.splitOn_ne_nil '.' s.toList

theorem dotParts_of_no_dot {s : String} (h : '.' ∉ s.toList) : dotParts s = [s.toList] :=
  List.splitOn_eq_singleton h

namespace QualifiedName

/-- A name without a dot in a namespace is read from the two with a dot between. -/
theorem parse_parts (space : String) {name : String} (h : '.' ∉ name.toList) :
    parse (space ++ "." ++ name) = ofParts space name := by
  have hdot : (space ++ "." ++ name).toList = space.toList ++ '.' :: name.toList := by simp
  rw [parse, hdot, Text.cutLast_append _ h]
  simp only [String.ofList_toList]

theorem getLast?_dotParts (q : QualifiedName) : (dotParts q.text).getLast? = some q.name.toList := by
  rw [text, dotParts_append, dotParts_of_no_dot (dot_not_mem_segment q.name_segment),
    List.getLast?_concat]

end QualifiedName

namespace Source

variable {s : Source} {raw written : String}

/-- How a reference is written out: in the namespace of the source if it has no dot, in the namespace that is
imported under what stands before its first dot, and else as it is. -/
inductive Expands (s : Source) : String → String → Prop
  | own {raw : String} (h : '.' ∉ raw.toList) : Expands s raw (s.space ++ "." ++ raw)
  | imported {head rest space : String} (hhead : '.' ∉ head.toList)
      (h : s.imports.get? head = some space) :
      Expands s (head ++ "." ++ rest) (space ++ "." ++ rest)
  | complete {head rest : String} (hhead : '.' ∉ head.toList) (h : s.imports.get? head = none) :
      Expands s (head ++ "." ++ rest) (head ++ "." ++ rest)

/-- The expansion of a reference is what its written form is read as, errors included. -/
theorem Expands.expand_eq (h : s.Expands raw written) : s.expand raw = QualifiedName.parse written := by
  have hcut {head : String} (rest : String) (hhead : '.' ∉ head.toList) :
      Text.cutFirst '.' (head ++ "." ++ rest).toList = some (head.toList, rest.toList) := by
    have hdot : (head ++ "." ++ rest).toList = head.toList ++ '.' :: rest.toList := by simp
    rw [hdot, Text.cutFirst_append _ hhead]
  cases h with
  | own h => rw [QualifiedName.parse_parts _ h, expand, Text.cutFirst_eq_none h]
  | imported hhead h => simp only [expand, hcut _ hhead, String.ofList_toList, h]
  | complete hhead h => simp only [expand, hcut _ hhead, String.ofList_toList, h]

theorem exists_expands (s : Source) (raw : String) : ∃ written, s.Expands raw written := by
  by_cases hdot : '.' ∈ raw.toList
  · obtain ⟨head, rest, hraw, hhead⟩ := List.eq_append_cons_of_mem hdot
    obtain rfl : raw = String.ofList head ++ "." ++ String.ofList rest := by
      apply String.toList_inj.1
      simp [hraw]
    have hhead' : '.' ∉ (String.ofList head).toList := by simpa using hhead
    cases hget : s.imports.get? (String.ofList head) with
    | some space => exact ⟨_, .imported hhead' hget⟩
    | none => exact ⟨_, .complete hhead' hget⟩
  · exact ⟨_, .own hdot⟩

/-- The simple name is not touched. -/
theorem Expands.getLast?_dotParts (h : s.Expands raw written) :
    (dotParts written).getLast? = (dotParts raw).getLast? := by
  have hlast (front t : String) : (dotParts (front ++ "." ++ t)).getLast? = (dotParts t).getLast? := by
    rw [dotParts_append, List.getLast?_append_of_ne_nil _ (dotParts_ne_nil t)]
  cases h with
  | own _ => exact hlast _ _
  | imported _ _ => rw [hlast, hlast]
  | complete _ _ => rfl

theorem Expands.two_le_dotParts (h : s.Expands raw written) : 2 ≤ (dotParts written).length := by
  have htwo (front t : String) : 2 ≤ (dotParts (front ++ "." ++ t)).length := by
    have hfront := List.length_pos_iff.2 (dotParts_ne_nil front)
    have ht := List.length_pos_iff.2 (dotParts_ne_nil t)
    rw [dotParts_append, List.length_append]
    omega
  cases h with
  | own _ => exact htwo _ _
  | imported _ _ => exact htwo _ _
  | complete _ _ => exact htwo _ _

/-- The namespace and the imports of a source pass their checks. -/
structure ProperSpaces (s : Source) : Prop where
  space : ∀ part ∈ dotParts s.space, Segment part
  aliases : ∀ e ∈ s.imports.entries, Segment e.1.toList
  imports : ∀ e ∈ s.imports.entries, ∀ part ∈ dotParts e.2, Segment part

theorem properSpaces_of_checks (hspace : isDotted s.space = true) (himports : s.importProblems = []) :
    s.ProperSpaces := by
  have hentry : ∀ e ∈ s.imports.entries, isSegment e.1 = true ∧ isDotted e.2 = true := by
    intro e he
    have hnone := List.flatMap_eq_nil_iff.1 himports e he
    simpa [problemIf] using hnone
  refine ⟨(dotted_iff_splitOn _).1 ((isDotted_iff _).1 hspace), ?_, ?_⟩
  · intro e he
    exact (isSegment_iff _).1 (hentry e he).1
  · intro e he
    exact (dotted_iff_splitOn _).1 ((isDotted_iff _).1 (hentry e he).2)

/-- What the namespace adds are segments, and so is the short name that it takes the place of. -/
theorem Expands.segments_iff (h : s.Expands raw written) (hs : s.ProperSpaces) :
    (∀ part ∈ dotParts written, Segment part) ↔ ∀ part ∈ dotParts raw, Segment part := by
  cases h with
  | own _ =>
    rw [dotParts_append, List.forall_mem_append]
    exact and_iff_right hs.space
  | @imported head rest space hhead h =>
    have hentry := (OrderedMap.get?_iff_mem _ _ _).1 h
    rw [dotParts_append, dotParts_append, List.forall_mem_append, List.forall_mem_append,
      dotParts_of_no_dot hhead, List.forall_mem_singleton]
    rw [and_iff_right (hs.imports _ hentry), and_iff_right (hs.aliases _ hentry)]
  | complete _ _ => rfl

/-- In a source whose namespaces pass their checks exactly the references that consist of segments are expanded. The
namespace comes from the first dot or its absence, and the simple name is the last part of the reference. -/
theorem expand_exact (hspace : isDotted s.space = true) (himports : s.importProblems = [])
    (raw : String) :
    ((∃ q, s.expand raw = .ok q) ↔ ∀ part ∈ raw.toList.splitOn '.', Segment part) ∧
      ∀ q, s.expand raw = .ok q →
        (∀ written, s.Expands raw written ↔ q.text = written) ∧
          (raw.toList.splitOn '.').getLast? = some q.name.toList := by
  obtain ⟨written, h⟩ := s.exists_expands raw
  constructor
  · rw [h.expand_eq, QualifiedName.parse_eq_ok_iff]
    calc 2 ≤ (dotParts written).length ∧ (∀ part ∈ dotParts written, Segment part)
      _ ↔ ∀ part ∈ dotParts written, Segment part := and_iff_right h.two_le_dotParts
      _ ↔ ∀ part ∈ dotParts raw, Segment part :=
        h.segments_iff (properSpaces_of_checks hspace himports)
  · intro q hq
    have htext {w : String} (hw : s.Expands raw w) : q.text = w :=
      QualifiedName.text_of_parse (hw.expand_eq ▸ hq)
    refine ⟨fun w => ⟨htext, fun hw => hw ▸ htext h ▸ h⟩, ?_⟩
    calc (dotParts raw).getLast?
      _ = (dotParts written).getLast? := h.getLast?_dotParts.symm
      _ = (dotParts q.text).getLast? := by rw [htext h]
      _ = some q.name.toList := q.getLast?_dotParts

end Source

/-- The short name before the first dot is replaced; what stands after it may be dotted, too. -/
theorem probeSource_expand :
    isDotted probeSource.space = true ∧ probeSource.importProblems = [] ∧
      (∃ q, probeSource.expand "net.v2.ping" = .ok q ∧ q.text = "lib.net.v2.ping") ∧
      ∀ q, probeSource.expand "net." ≠ .ok q := by
  have hspace : isDotted probeSource.space = true := by decide
  have himports : probeSource.importProblems = [] := by decide
  refine ⟨hspace, himports, ?_, ?_⟩
  · obtain ⟨haccepts, hread⟩ := Source.expand_exact hspace himports "net.v2.ping"
    obtain ⟨q, hq⟩ := haccepts.2 fun part hpart => (isSegmentChars_iff part).1 (by
      revert part
      decide)
    have hwritten : probeSource.Expands ("net" ++ "." ++ "v2.ping") ("lib.net" ++ "." ++ "v2.ping") :=
      .imported (by decide) (by decide)
    exact ⟨q, hq, ((hread q hq).1 _).1 hwritten⟩
  · intro q hq
    obtain ⟨haccepts, -⟩ := Source.expand_exact hspace himports "net."
    have hlast : Segment [] := haccepts.1 ⟨q, hq⟩ [] (by decide)
    cases hlast

end WorkflowCompiler
