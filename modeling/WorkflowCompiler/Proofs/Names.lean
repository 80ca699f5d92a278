import WorkflowCompiler.QualifiedName

/-!
Written names determine the names. The simple name holds no dot, so the last dot of the text is the one that
was written; no part of a name holds a colon, so the key of a branch is never the text of a name. The checks on
names accept what a grammar of segments and dots describes, and exactly the texts of two or more segments are
read as names.
-/

namespace WorkflowCompiler

namespace Text

/-- The parts are those of the library's function. -/
theorem split_eq_splitOn (sep : Char) (cs : List Char) : split sep cs = cs.splitOn sep := by
  induction cs with
  | nil => rfl
  | cons c r ih => simp only [split, List.splitOn_cons_eq_if_modifyHead, ih, beq_iff_eq]

theorem cutLast_eq_none {sep : Char} {cs : List Char} : cutLast sep cs = none ↔ sep ∉ cs := by
  induction cs with
  | nil => simp [cutLast]
  | cons c r ih =>
    simp only [cutLast, List.mem_cons, not_or, ← ih]
    cases hr : cutLast sep r with
    | some p => simp
    | none => simp [eq_comm]

/-- Nothing after the last separator is a separator. -/
theorem not_mem_of_cutLast {sep : Char} {cs before after : List Char}
    (h : cutLast sep cs = some (before, after)) : sep ∉ after := by
  induction cs generalizing before with
  | nil => cases h
  | cons c r ih =>
    simp only [cutLast] at h
    split at h
    · rename_i b a hr
      obtain ⟨rfl, rfl⟩ := Prod.mk.inj (Option.some.inj h)
      exact ih hr
    · rename_i hr
      split at h
      · obtain ⟨rfl, rfl⟩ := Prod.mk.inj (Option.some.inj h)
        exact cutLast_eq_none.1 hr
      · cases h

/-- The cut is at the separator after which there is no other. -/
theorem cutLast_append {sep : Char} {after : List Char} (before : List Char) (h : sep ∉ after) :
    cutLast sep (before ++ sep :: after) = some (before, after) := by
  induction before with
  | nil => simp only [List.nil_append, cutLast, cutLast_eq_none.2 h, if_true]
  | cons c r ih => simp only [List.cons_append, cutLast, ih]

theorem mem_of_split (sep : Char) {c : Char} {cs : List Char} (h : c ∈ cs) :
    c = sep ∨ ∃ part ∈ split sep cs, c ∈ part := by
  induction cs with
  | nil => simp at h
  | cons d r ih =>
    simp only [split]
    by_cases hd : d = sep
    · rcases List.mem_cons.1 h with rfl | h
      · exact .inl hd
      · rcases ih h with h | ⟨part, hpart, hc⟩
        · exact .inl h
        · exact .inr ⟨part, by simp [hd, hpart], hc⟩
    · cases hs : split sep r with
      | nil => exact absurd hs (split_ne_nil sep r)
      | cons p ps =>
        simp only [hd, if_false, List.modifyHead_cons]
        rcases List.mem_cons.1 h with rfl | h
        · exact .inr ⟨c :: p, by simp, by simp⟩
        · rcases ih h with h | ⟨part, hpart, hc⟩
          · exact .inl h
          · rw [hs] at hpart
            rcases List.mem_cons.1 hpart with rfl | hpart
            · exact .inr ⟨d :: part, by simp, by simp [hc]⟩
            · exact .inr ⟨part, by simp [hpart], hc⟩

theorem split_of_not_mem {sep : Char} {cs : List Char} (h : sep ∉ cs) : split sep cs = [cs] := by
  rw [split_eq_splitOn, List.splitOn_eq_singleton h]

theorem split_append {sep : Char} {cs : List Char} (rest : List Char) (h : sep ∉ cs) :
    split sep (cs ++ sep :: rest) = cs :: split sep rest := by
  rw [split_eq_splitOn, split_eq_splitOn, List.splitOn_append_cons_self_of_not_mem h]

/-- The last part is what stands after the last separator. -/
theorem splitOn_of_cutLast {sep : Char} {cs before after : List Char}
    (h : cutLast sep cs = some (before, after)) : cs.splitOn sep = before.splitOn sep ++ [after] := by
  rw [eq_of_cutLast h, List.splitOn_append_cons_self, List.splitOn_eq_singleton (not_mem_of_cutLast h)]

/-- The first part is all there is, or a separator follows it. -/
theorem split_eq_cons {sep : Char} {cs part : List Char} {parts : List (List Char)}
    (h : split sep cs = part :: parts) :
    (parts = [] ∧ cs = part) ∨ ∃ rest, cs = part ++ sep :: rest ∧ split sep rest = parts := by
  induction cs generalizing part parts with
  | nil =>
    obtain ⟨rfl, rfl⟩ := List.cons.inj h
    exact .inl ⟨rfl, rfl⟩
  | cons c r ih =>
    simp only [split] at h
    split at h
    · rename_i hc
      obtain ⟨rfl, hparts⟩ := List.cons.inj h
      exact .inr ⟨r, by rw [hc, List.nil_append], hparts⟩
    · cases hr : split sep r with
      | nil => exact absurd hr (split_ne_nil sep r)
      | cons p ps =>
        rw [hr, List.modifyHead_cons] at h
        obtain ⟨rfl, rfl⟩ := List.cons.inj h
        rcases ih hr with ⟨hnil, rfl⟩ | ⟨rest, rfl, hrest⟩
        · exact .inl ⟨hnil, rfl⟩
        · exact .inr ⟨rest, rfl, hrest⟩

end Text

theorem isSegmentChar_of_start {c : Char} (h : isSegmentStart c = true) :
    isSegmentChar c = true := by
  simp only [isSegmentStart, isSegmentChar, Char.isAlphanum, Bool.or_eq_true] at *
  rcases h with h | h
  · exact .inl (.inl (.inl h))
  · exact .inl (.inr h)

theorem isSegmentChar_of_mem {c : Char} {cs : List Char} (hcs : isSegmentChars cs = true)
    (hc : c ∈ cs) : isSegmentChar c = true := by
  cases cs with
  | nil => simp at hc
  | cons d r =>
    simp only [isSegmentChars, Bool.and_eq_true, List.all_eq_true] at hcs
    rcases List.mem_cons.1 hc with rfl | hc
    · exact isSegmentChar_of_start hcs.1
    · exact hcs.2 c hc

theorem dot_not_mem_segment {cs : List Char} (h : isSegmentChars cs = true) : '.' ∉ cs := by
  intro hc
  have := isSegmentChar_of_mem h hc
  revert this
  decide

section Grammar

def IsLetter (c : Char) : Prop := ('A' ≤ c ∧ c ≤ 'Z') ∨ ('a' ≤ c ∧ c ≤ 'z')

def IsDigit (c : Char) : Prop := '0' ≤ c ∧ c ≤ '9'

/-- A letter or an underscore, then letters, digits, underscores and hyphens. -/
inductive Segment : List Char → Prop
  | intro {c : Char} {rest : List Char} (first : IsLetter c ∨ c = '_')
      (others : ∀ d ∈ rest, IsLetter d ∨ IsDigit d ∨ d = '_' ∨ d = '-') : Segment (c :: rest)

/-- Segments with a dot between each two. -/
inductive Dotted : List Char → Prop
  | one {cs : List Char} (h : Segment cs) : Dotted cs
  | more {cs rest : List Char} (h : Segment cs) (hrest : Dotted rest) : Dotted (cs ++ '.' :: rest)

theorem isAlpha_iff (c : Char) : c.isAlpha = true ↔ IsLetter c := by
  change (decide ('A' ≤ c ∧ c ≤ 'Z') || decide ('a' ≤ c) && decide (c ≤ 'z')) = true ↔ _
  simp [IsLetter]

theorem isDigit_iff (c : Char) : c.isDigit = true ↔ IsDigit c := by
  change (decide ('0' ≤ c) && decide (c ≤ '9')) = true ↔ _
  simp [IsDigit]

theorem isSegmentChars_iff (cs : List Char) : isSegmentChars cs = true ↔ Segment cs := by
  cases cs with
  | nil =>
    constructor
    · intro h
      simp [isSegmentChars] at h
    · intro h
      cases h
  | cons c r =>
    simp only [isSegmentChars, isSegmentStart, isSegmentChar, Char.isAlphanum, Bool.and_eq_true,
      Bool.or_eq_true, List.all_eq_true, isAlpha_iff, isDigit_iff, beq_iff_eq, or_assoc]
    constructor
    · rintro ⟨first, others⟩
      exact .intro first others
    · rintro ⟨first, others⟩
      exact ⟨first, others⟩

theorem isSegment_iff (s : String) : isSegment s = true ↔ Segment s.toList :=
  isSegmentChars_iff s.toList

theorem dotted_of_split {cs : List Char} {parts : List (List Char)}
    (h : Text.split '.' cs = parts) (hparts : ∀ part ∈ parts, Segment part) : Dotted cs := by
  induction parts generalizing cs with
  | nil => exact absurd h (Text.split_ne_nil '.' cs)
  -- The tail of the parts is the split of what stands after the first dot.
  | cons part parts ih =>
    have hpart : Segment part := hparts part List.mem_cons_self
    rcases Text.split_eq_cons h with ⟨-, rfl⟩ | ⟨rest, rfl, hrest⟩
    · exact .one hpart
    · exact .more hpart (ih hrest fun p hp => hparts p (List.mem_cons_of_mem _ hp))

theorem segments_of_dotted {cs : List Char} (h : Dotted cs) :
    ∀ part ∈ Text.split '.' cs, Segment part := by
  have hdot {cs : List Char} (hcs : Segment cs) : '.' ∉ cs :=
    dot_not_mem_segment ((isSegmentChars_iff cs).2 hcs)
  induction h with
  | one h =>
    rw [Text.split_of_not_mem (hdot h)]
    simpa using h
  | more h _ ih =>
    rw [Text.split_append _ (hdot h)]
    exact List.forall_mem_cons.2 ⟨h, ih⟩

theorem isDotted_iff (s : String) : isDotted s = true ↔ Dotted s.toList := by
  rw [isDotted, List.all_eq_true]
  simp only [isSegmentChars_iff]
  exact ⟨dotted_of_split rfl, segments_of_dotted⟩

theorem dotted_iff_splitOn (cs : List Char) : Dotted cs ↔ ∀ part ∈ cs.splitOn '.', Segment part := by
  rw [← Text.split_eq_splitOn]
  exact ⟨segments_of_dotted, dotted_of_split rfl⟩

end Grammar

namespace QualifiedName

theorem parts_of_ofParts {space name : String} {q : QualifiedName} (h : ofParts space name = .ok q) :
    q.space = space ∧ q.name = name := by
  unfold ofParts at h
  split at h
  · split at h
    · obtain rfl := Except.ok.inj h
      exact ⟨rfl, rfl⟩
    · cases h
  · cases h

theorem exists_ofParts {space name : String} (hs : Dotted space.toList) (hn : Segment name.toList) :
    ∃ q, ofParts space name = .ok q := by
  have hs' := (isDotted_iff space).2 hs
  have hn' := (isSegment_iff name).2 hn
  exact ⟨⟨space, name, hs', hn'⟩, by rw [ofParts, dif_pos hn', dif_pos hs']⟩

theorem toList_text (q : QualifiedName) : q.text.toList = q.space.toList ++ '.' :: q.name.toList := by
  simp [text]

/-- A written name is read back. -/
theorem parse_text (q : QualifiedName) : parse q.text = .ok q := by
  have hcut := Text.cutLast_append q.space.toList (dot_not_mem_segment q.name_segment)
  simp only [parse, toList_text, hcut, String.ofList_toList, ofParts, q.name_segment, q.space_dotted,
    dif_pos]

theorem text_inj {p q : QualifiedName} (h : p.text = q.text) : p = q := by
  have hp := parse_text p
  rw [h, parse_text q] at hp
  exact (Except.ok.inj hp).symm

theorem branchKey_inj {p q : QualifiedName} (h : p.branchKey = q.branchKey) : p = q := by
  apply text_inj
  have hl := congrArg String.toList h
  simp only [branchKey, String.toList_append] at hl
  exact String.toList_inj.1 (List.append_cancel_left hl)

theorem colon_not_mem_text (q : QualifiedName) : ':' ∉ q.text.toList := by
  have hcolon : isSegmentChar ':' = false := by decide
  rw [toList_text]
  intro h
  rcases List.mem_append.1 h with h | h
  · rcases Text.mem_of_split '.' h with h | ⟨part, hpart, hc⟩
    · exact absurd h (by decide)
    · have hseg : isSegmentChars part = true := List.all_eq_true.1 q.space_dotted part hpart
      simp [isSegmentChar_of_mem hseg hc] at hcolon
  · rcases List.mem_cons.1 h with h | h
    · exact absurd h (by decide)
    · simp [isSegmentChar_of_mem q.name_segment h] at hcolon

theorem branchKey_ne_text (p q : QualifiedName) : p.branchKey ≠ q.text := by
  intro h
  apply colon_not_mem_text q
  rw [← h, branchKey, String.toList_append]
  exact List.mem_append_left _ (by decide)

theorem ofParts_eq_ok_iff {space name : String} :
    (∃ q, ofParts space name = .ok q) ↔ Dotted space.toList ∧ Segment name.toList := by
  constructor
  · rintro ⟨q, h⟩
    obtain ⟨rfl, rfl⟩ := parts_of_ofParts h
    exact ⟨(isDotted_iff _).1 q.space_dotted, (isSegment_iff _).1 q.name_segment⟩
  · rintro ⟨hs, hn⟩
    exact exists_ofParts hs hn

/-- What is read was written so. -/
theorem text_of_parse {s : String} {q : QualifiedName} (h : parse s = .ok q) : q.text = s := by
  unfold parse at h
  split at h
  · rename_i space name hcut
    obtain ⟨hspace, hname⟩ := parts_of_ofParts h
    apply String.toList_inj.1
    rw [toList_text, hspace, hname, String.toList_ofList, String.toList_ofList, ← Text.eq_of_cutLast hcut]
  · cases h

theorem parse_eq_ok_iff (s : String) : (∃ q, parse s = .ok q) ↔
    2 ≤ (s.toList.splitOn '.').length ∧ ∀ part ∈ s.toList.splitOn '.', Segment part := by
  cases hcut : Text.cutLast '.' s.toList with
  | none =>
    have hone : s.toList.splitOn '.' = [s.toList] :=
      List.splitOn_eq_singleton (Text.cutLast_eq_none.1 hcut)
    simp [parse, hcut, hone]
  | some p =>
    obtain ⟨space, name⟩ := p
    have hsome : 1 ≤ (space.splitOn '.').length :=
      List.length_pos_iff.2 (List.splitOn_ne_nil '.' space)
    simp only [parse, hcut, ofParts_eq_ok_iff, String.toList_ofList, dotted_iff_splitOn,
      Text.splitOn_of_cutLast hcut, List.length_append, List.length_singleton,
      List.forall_mem_append, List.forall_mem_singleton]
    constructor
    · intro h
      exact ⟨by omega, h⟩
    · rintro ⟨-, h⟩
      exact h

/-- Exactly the texts whose parts between dots are two or more segments are read as names. Reading and writing undo
each other, so written names and the keys of branches are all different. -/
theorem written_names_exact :
    (∀ s, (∃ q, parse s = .ok q) ↔
      2 ≤ (s.toList.splitOn '.').length ∧ ∀ part ∈ s.toList.splitOn '.', Segment part) ∧
    (∀ s q, parse s = .ok q → q.text = s) ∧
    (∀ space name q, ofParts space name = .ok q → parse q.text = .ok q) ∧
    Function.Injective text ∧ Function.Injective branchKey ∧
    ∀ p q : QualifiedName, p.branchKey ≠ q.text := by
  refine ⟨parse_eq_ok_iff, ?_, ?_, ?_, ?_, branchKey_ne_text⟩
  · intro s q h
    exact text_of_parse h
  · intro space name q _
    exact parse_text q
  · intro p q h
    exact text_inj h
  · intro p q h
    exact branchKey_inj h

/-- A line break ends no segment, not even the last one. -/
theorem written_names_at_line_break :
    (∃ q, parse "_io.v-2.print" = .ok q ∧ q.text = "_io.v-2.print" ∧ parse q.text = .ok q) ∧
      ∀ q, parse "io.print\n" ≠ .ok q := by
  obtain ⟨haccepts, htext, hread, -⟩ := written_names_exact
  constructor
  · have hparts : ofParts "_io.v-2" "print" = .ok ⟨"_io.v-2", "print", by decide, by decide⟩ := rfl
    exact ⟨_, hparts, htext _ _ hparts, hread _ _ _ hparts⟩
  · intro q h
    obtain ⟨-, hall⟩ := (haccepts _).1 ⟨q, h⟩
    have hlast : Segment "print\n".toList := hall _ (by decide)
    rw [← isSegmentChars_iff] at hlast
    revert hlast
    decide

end QualifiedName

end WorkflowCompiler
