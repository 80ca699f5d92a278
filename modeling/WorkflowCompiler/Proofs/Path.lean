import Mathlib.Data.List.Basic
import WorkflowCompiler.FileTree
import WorkflowCompiler.Proofs.Names

/-!
The parts of a path. A path that does not end with a slash ends with its last name, and another extension changes
that name and nothing before it. An extension that holds a dot always gives another name: what stands after the last
dot of a name holds none. A path inside another one has one name more, and a parent has some of the first names.
-/

namespace WorkflowCompiler

namespace Text

variable {sep : Char}

theorem not_mem_of_mem_split {cs part : List Char} (h : part ∈ split sep cs) : sep ∉ part := by
  induction cs generalizing part with
  | nil =>
    obtain rfl := List.mem_singleton.1 h
    simp
  | cons c r ih =>
    simp only [split] at h
    split at h
    · rcases List.mem_cons.1 h with rfl | h
      · simp
      · exact ih h
    · rename_i hc
      cases hr : split sep r with
      | nil => exact absurd hr (split_ne_nil sep r)
      | cons p ps =>
        rw [hr, List.modifyHead_cons] at h
        rcases List.mem_cons.1 h with rfl | h
        · have hp : sep ∉ p := ih (by simp [hr])
          simpa [Ne.symm hc] using hp
        · exact ih (by simp [hr, h])

/-- Parts without separators are found again when they are written one after the other. -/
theorem split_joined {first : List Char} {rest : List (List Char)}
    (h : ∀ part ∈ first :: rest, sep ∉ part) :
    split sep (first ++ rest.flatMap fun part => sep :: part) = first :: rest := by
  induction rest generalizing first with
  | nil =>
    rw [List.flatMap_nil, List.append_nil]
    exact split_of_not_mem (h first List.mem_cons_self)
  | cons part rest ih =>
    rw [List.flatMap_cons, List.cons_append, split_append _ (h first List.mem_cons_self)]
    rw [ih fun q hq => h q (List.mem_cons_of_mem _ hq)]

end Text

namespace Path

variable {p : Path} {front : List (List Char)} {n : List Char}

/-- The path ends with a part that counts. -/
structure EndsWith (p : Path) (front : List (List Char)) (n : List Char) : Prop where
  parts : Text.split '/' p.chars = front ++ [n]
  counts : isIdle n = false

theorem EndsWith.dropIdle (h : p.EndsWith front n) (parts : List (List Char)) :
    dropIdle (parts ++ [n]) = parts ++ [n] := by
  simp [Path.dropIdle, h.counts]

theorem EndsWith.no_slash (h : p.EndsWith front n) : ∀ part ∈ front ++ [n], '/' ∉ part := by
  intro part hpart
  exact Text.not_mem_of_mem_split (h.parts ▸ hpart)

theorem EndsWith.parts_cons {first : List Char} {middle : List (List Char)}
    (h : p.EndsWith (first :: middle) n) : p.parts = (first, middle ++ [n]) := by
  rw [Path.parts, h.parts]
  rfl

/-- The only part of a path without a slash is not empty, so the path is not absolute. -/
theorem EndsWith.components_single (h : p.EndsWith [] n) :
    p.components = [componentOf n] := by
  have hchars : p.chars = n := by
    rcases Text.split_eq_cons h.parts with ⟨-, hchars⟩ | ⟨rest, -, hrest⟩
    · exact hchars
    · exact absurd hrest (Text.split_ne_nil '/' rest)
  have hrelative : p.isAbsolute = false := by
    have hslash := h.no_slash n (by simp)
    rw [isAbsolute, hchars]
    cases n with
    | nil => rfl
    | cons c r =>
      have hc : c ≠ '/' := by
        rintro rfl
        exact hslash List.mem_cons_self
      simp [hc]
  have hcounts := h.counts
  simp only [isIdle, Bool.or_eq_false_iff, beq_eq_false_iff_ne] at hcounts
  simp [components, Path.parts, h.parts, hrelative, hcounts.1, hcounts.2]

theorem EndsWith.getLast?_components (h : p.EndsWith front n) :
    p.components.getLast? = some (componentOf n) := by
  cases front with
  | nil => rw [h.components_single, List.getLast?_singleton]
  | cons first middle =>
    have htail : ((middle ++ [n]).filter fun part => !Path.isIdle part).map Path.componentOf =
        (middle.filter fun part => !Path.isIdle part).map Path.componentOf ++ [Path.componentOf n] := by
      simp [List.filter_append, h.counts]
    have hlast (c : Component) (cs : List Component) (d : Component) :
        (c :: (cs ++ [d])).getLast? = some d := by
      rw [← List.cons_append, List.getLast?_concat]
    simp only [components, h.parts_cons, htail]
    split
    · exact hlast _ _ _
    · split
      · exact List.getLast?_concat
      · split
        · exact hlast _ _ _
        · exact hlast _ _ _

theorem EndsWith.fileName? (h : p.EndsWith front n) (hn : n ≠ ['.', '.']) :
    p.fileName? = some (String.ofList n) := by
  rw [Path.fileName?, h.getLast?_components, componentOf, if_neg hn]

end Path

namespace FileTree

variable {p : Path} {front : List (List Char)} {n : List Char}

end FileTree

namespace Path

theorem ofChars_chars (p : Path) : ofChars p.chars = p := by
  rw [ofChars, chars, String.ofList_toList]

theorem chars_ofChars (cs : List Char) : (ofChars cs).chars = cs := by
  rw [ofChars, chars, String.toList_ofList]

/-- A text that can stand for itself between slashes. -/
structure Plain (name : String) : Prop where
  nonempty : name.toList ≠ []
  no_slash : '/' ∉ name.toList

namespace Plain

variable {name : String}

theorem head?_ne (h : Plain name) : name.toList.head? ≠ some '/' := by
  intro hhead
  exact h.no_slash (List.mem_of_head? hhead)

theorem getLast?_ne (h : Plain name) : name.toList.getLast? ≠ some '/' := by
  intro hlast
  exact h.no_slash (List.mem_of_getLast? hlast)

/-- One name further inside: after a slash, unless the path is empty or ends with one. -/
theorem chars_join (h : Plain name) (p : Path) :
    (p.join ⟨name⟩).chars = p.chars ++ name.toList ∧ (p.chars = [] ∨ p.endsWithSlash = true) ∨
      (p.join ⟨name⟩).chars = p.chars ++ '/' :: name.toList ∧ p.chars ≠ [] := by
  have hrelative : isAbsolute ⟨name⟩ = false := by
    simpa [isAbsolute, chars] using h.head?_ne
  rw [Path.join, hrelative, if_neg (by decide)]
  split
  · rename_i hend
    exact .inl ⟨by simp [chars], by simpa using hend⟩
  · rename_i hend
    rw [Bool.or_eq_true, not_or] at hend
    exact .inr ⟨by simp [chars], by simpa using hend.1⟩

theorem text_join (h : Plain name) (p : Path) : (p.join ⟨name⟩).text.isEmpty = false := by
  have hne : (p.join ⟨name⟩).chars ≠ [] := by
    rcases h.chars_join p with ⟨hchars, -⟩ | ⟨hchars, -⟩
    · rw [hchars]
      exact List.append_ne_nil_of_right_ne_nil _ h.nonempty
    · rw [hchars]
      exact List.append_ne_nil_of_right_ne_nil _ (List.cons_ne_nil _ _)
  simpa [chars] using hne

theorem endsWithSlash_join (h : Plain name) (p : Path) : (p.join ⟨name⟩).endsWithSlash = false := by
  have hlast (cs : List Char) : (cs ++ name.toList).getLast? = name.toList.getLast? :=
    List.getLast?_append_of_ne_nil cs h.nonempty
  rw [endsWithSlash, beq_eq_false_iff_ne]
  rcases h.chars_join p with ⟨hchars, -⟩ | ⟨hchars, -⟩
  · rw [hchars, hlast]
    exact h.getLast?_ne
  · rw [hchars, ← List.singleton_append, ← List.append_assoc, hlast]
    exact h.getLast?_ne

theorem isAbsolute_join (h : Plain name) (p : Path) : (p.join ⟨name⟩).isAbsolute = p.isAbsolute := by
  rw [isAbsolute, isAbsolute]
  by_cases hempty : p.chars = []
  · rcases h.chars_join p with ⟨hchars, -⟩ | ⟨-, hne⟩
    · simpa [hchars, hempty] using h.head?_ne
    · exact absurd hempty hne
  · rcases h.chars_join p with ⟨hchars, -⟩ | ⟨hchars, -⟩
    · rw [hchars, List.head?_append_of_ne_nil _ hempty]
    · rw [hchars, List.head?_append_of_ne_nil _ hempty]

end Plain

end Path

namespace FileTree

variable {p q : Path} {name : String}

theorem names_append {cs ds : List Char} (h : p.chars = cs ++ '/' :: ds) :
    names p = names (.ofChars cs) ++ names (.ofChars ds) := by
  rw [names, names, names, h, Path.chars_ofChars, Path.chars_ofChars, Text.split_eq_splitOn,
    Text.split_eq_splitOn, Text.split_eq_splitOn, List.splitOn_append_cons_self, List.filter_append,
    List.map_append]

theorem names_plain (h : Path.Plain name) : names (.ofChars name.toList) = [name] := by
  rw [names, Path.chars_ofChars, Text.split_of_not_mem h.no_slash,
    List.filter_cons_of_pos (by simpa using h.nonempty)]
  simp

/-- A path with one name more has one name more. -/
theorem names_join (h : Path.Plain name) (p : Path) : names (p.join ⟨name⟩) = names p ++ [name] := by
  have hnone : names (.ofChars []) = [] := rfl
  rcases h.chars_join p with ⟨hchars, hempty | hslash⟩ | ⟨hchars, -⟩
  · rw [hempty, List.nil_append] at hchars
    rw [← Path.ofChars_chars (p.join _), hchars, names_plain h, ← p.ofChars_chars, hempty, hnone,
      List.nil_append]
  · obtain ⟨cs, hcs⟩ := List.getLast?_eq_some_iff.1 (beq_iff_eq.1 hslash)
    rw [hcs, List.append_assoc, List.singleton_append] at hchars
    rw [names_append hchars, names_append hcs, names_plain h, hnone, List.append_nil]
  · rw [names_append hchars, names_plain h, Path.ofChars_chars]

end FileTree

namespace Path

variable {p q : Path}

theorem dropIdle_front (parts : List (List Char)) : dropIdle parts <+: parts := by
  rw [dropIdle, ← List.reverse_suffix, List.reverse_reverse]
  exact List.dropWhile_suffix _

theorem split_eq_parts (p : Path) : Text.split '/' p.chars = p.parts.1 :: p.parts.2 := by
  unfold parts
  split
  · rename_i hnil
    exact absurd hnil (Text.split_ne_nil '/' p.chars)
  · rename_i first rest hsplit
    exact hsplit

theorem isAbsolute_iff : p.isAbsolute = true ↔ p.parts.1 = [] ∧ p.parts.2 ≠ [] := by
  have hsplit := split_eq_parts p
  unfold isAbsolute
  cases hchars : p.chars with
  | nil =>
    rw [hchars] at hsplit
    obtain ⟨-, hrest⟩ := List.cons.inj hsplit
    simp [← hrest]
  | cons c r =>
    obtain ⟨part, parts, hr⟩ := List.exists_cons_of_ne_nil (Text.split_ne_nil '/' r)
    rw [hchars, Text.split, hr] at hsplit
    by_cases hc : c = '/'
    · rw [if_pos hc] at hsplit
      obtain ⟨hfirst, hrest⟩ := List.cons.inj hsplit
      simp [hc, ← hfirst, ← hrest]
    · rw [if_neg hc, List.modifyHead_cons] at hsplit
      obtain ⟨hfirst, -⟩ := List.cons.inj hsplit
      simp [hc, ← hfirst]

theorem parts_ofParts {above : List (List Char)} (h : above <+: p.parts.2) :
    (ofParts p.parts.1 above).parts = (p.parts.1, above) := by
  have hsplit : Text.split '/' (ofParts p.parts.1 above).chars = p.parts.1 :: above := by
    rw [ofParts, chars_ofChars]
    refine Text.split_joined fun part hpart => ?_
    have hmem : part ∈ Text.split '/' p.chars := by
      rw [split_eq_parts]
      exact ((List.prefix_cons_inj _).2 h).subset hpart
    exact Text.not_mem_of_mem_split hmem
  rw [parts, hsplit]

/-- The parent begins where the path does, and its names are some of the first names of the path. -/
theorem parent?_front (h : p.parent? = some q) :
    FileTree.names q <+: FileTree.names p ∧ q.isAbsolute = p.isAbsolute := by
  have hnames {above : List (List Char)} (habove : above <+: p.parts.2) :
      FileTree.names (ofParts p.parts.1 above) <+: FileTree.names p := by
    rw [FileTree.names, FileTree.names, split_eq_parts, split_eq_parts, parts_ofParts habove]
    exact (((List.prefix_cons_inj _).2 habove).filter _).map _
  have habsolute : p.parts.1 ≠ [] → p.isAbsolute = false := by
    intro hfirst
    rw [Bool.eq_false_iff, ne_eq, isAbsolute_iff]
    exact fun hboth => hfirst hboth.1
  unfold parent? at h
  simp only at h
  split at h
  · split at h
    · cases h
    · rename_i hfirst
      obtain rfl := Option.some.inj h
      refine ⟨?_, (habsolute (by simpa using hfirst)).symm⟩
      exact List.nil_prefix
  · have hfront : dropIdle (dropIdle p.parts.2).dropLast <+: p.parts.2 := by
      refine (dropIdle_front _).trans (List.IsPrefix.trans ?_ (dropIdle_front _))
      exact List.dropLast_prefix _
    split at h
    · split at h
      · rename_i hroot
        obtain rfl := Option.some.inj h
        refine ⟨?_, hroot.symm⟩
        exact List.nil_prefix
      · rename_i hroot
        obtain rfl := Option.some.inj h
        have hnil : [] <+: p.parts.2 := by simp
        refine ⟨hnames hnil, ?_⟩
        rw [Bool.eq_false_iff.2 hroot, Bool.eq_false_iff, ne_eq, isAbsolute_iff, parts_ofParts hnil]
        exact fun hboth => hboth.2 rfl
    · rename_i above hne
      obtain rfl := Option.some.inj h
      refine ⟨hnames hfront, ?_⟩
      rw [Bool.eq_iff_iff, isAbsolute_iff, isAbsolute_iff, parts_ofParts hfront]
      have hrest : p.parts.2 ≠ [] := by
        intro hnil
        exact hne (List.prefix_nil.1 (hnil ▸ hfront))
      exact and_congr_right fun _ => iff_of_true hne hrest

end Path

end WorkflowCompiler
