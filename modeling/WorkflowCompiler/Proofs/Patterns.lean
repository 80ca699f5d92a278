import WorkflowCompiler.Glob.Matches
import WorkflowCompiler.Proofs.FileTree
import WorkflowCompiler.Proofs.Path

/-!
Which files a list of patterns stands for. Paths are told apart by their components: what is found is listed in the
order of the components, one path for each. Two paths with the same components lead to the same file, but not the
other way round, since a file has as many paths as there are ways to go up and down to it.
-/

namespace WorkflowCompiler

namespace Component

theorem key_inj {c d : Component} (h : c.key = d.key) : c = d := by
  have hl : c.key.toList = d.key.toList := congrArg String.toList h
  clear h
  cases c <;> cases d <;> simp_all [key, String.toList_inj]

/-- The name by which a component is followed; the root and a dot at the beginning are not followed. -/
def name? : Component → Option String
  | .root | .here => none
  | .up => some ".."
  | .name s => some s

end Component

namespace Path

variable {p q : Path}

theorem components_of_key (h : p.key = q.key) : p.components = q.components :=
  (List.map_inj_right fun _ _ => Component.key_inj).1 h

theorem name?_componentOf (part : List Char) :
    (componentOf part).name? = some (String.ofList part) := by
  unfold componentOf
  split
  · rename_i h
    rw [h]
    rfl
  · rfl

theorem names_without_dots (p : Path) : (FileTree.names p).filter (· ≠ ".") =
    ((Text.split '/' p.chars).filter fun part => !isIdle part).map String.ofList := by
  rw [FileTree.names, List.filter_map, List.filter_filter]
  congr 1
  apply List.filter_congr
  intro part _
  have hdot : String.ofList part = "." ↔ part = ['.'] := by
    rw [← String.toList_inj, String.toList_ofList]
    rfl
  by_cases hempty : part = []
  · simp [isIdle, hempty]
  · by_cases hone : part = ['.']
    · simp [isIdle, hone]
    · simp [isIdle, hempty, hone, hdot]

theorem filterMap_componentOf (parts : List (List Char)) :
    (parts.map componentOf).filterMap Component.name? = parts.map String.ofList := by
  rw [List.filterMap_map]
  have hsome : Component.name? ∘ componentOf = some ∘ String.ofList := funext name?_componentOf
  rw [hsome, List.filterMap_eq_map]

theorem componentOf_ne_root (part : List Char) : componentOf part ≠ .root := by
  unfold componentOf
  split <;> simp

theorem head?_split_of_absolute {first : List Char} {rest : List (List Char)}
    (hsplit : Text.split '/' p.chars = first :: rest) (h : p.isAbsolute = true) : first = [] := by
  cases hchars : p.chars with
  | nil => simp [isAbsolute, hchars] at h
  | cons c r =>
    obtain rfl : c = '/' := by simpa [isAbsolute, hchars] using h
    rw [hchars, Text.split, if_pos rfl] at hsplit
    exact (List.cons.inj hsplit).1.symm

/-- The names without dots are the components, apart from the root or a dot that may come first. -/
theorem filterMap_components (p : Path) :
    p.components.filterMap Component.name? = (FileTree.names p).filter (· ≠ ".") := by
  obtain ⟨first, rest, hsplit⟩ := List.exists_cons_of_ne_nil (Text.split_ne_nil '/' p.chars)
  have hparts : p.parts = (first, rest) := by rw [parts, hsplit]
  have hidle (h : isIdle first = true) :
      ((first :: rest).filter fun part => !isIdle part) = rest.filter fun part => !isIdle part :=
    List.filter_cons_of_neg (by simp [h])
  rw [names_without_dots, hsplit]
  simp only [components, hparts]
  split
  · rename_i habsolute
    rw [hidle (by simp [isIdle, head?_split_of_absolute hsplit habsolute])]
    exact filterMap_componentOf _
  · split
    · rename_i hempty
      rw [hidle (by simp [isIdle, List.isEmpty_iff.1 hempty])]
      exact filterMap_componentOf _
    · rename_i hempty
      split
      · rename_i hdot
        rw [hidle (by simp [isIdle, hdot])]
        exact filterMap_componentOf _
      · rename_i hdot
        have hcounts : isIdle first = false := by
          rw [List.isEmpty_iff] at hempty
          simp [isIdle, hempty, hdot]
        rw [List.filter_cons_of_pos (by simp [hcounts]), ← List.map_cons]
        exact filterMap_componentOf _

theorem head?_components (p : Path) : p.components.head? = some .root ↔ p.isAbsolute = true := by
  have hmap (parts : List (List Char)) : (parts.map componentOf).head? ≠ some .root := by
    intro h
    rw [List.head?_map, Option.map_eq_some_iff] at h
    obtain ⟨part, -, hroot⟩ := h
    exact componentOf_ne_root part hroot
  simp only [components]
  split
  · rename_i habsolute
    exact iff_of_true rfl habsolute
  · rename_i hrelative
    refine iff_of_false ?_ hrelative
    split
    · exact hmap _
    · split
      · simp
      · rw [← List.map_cons]
        exact hmap _

end Path

namespace FileTree

variable {t : FileTree} {p q : Path} {l k : Location}

/-- A dot leads nowhere else. -/
theorem walk_without_dots {names : List String} (h : t.walk l names = .ok k) :
    t.walk l (names.filter (· ≠ ".")) = .ok k := by
  induction names generalizing l with
  | nil => exact h
  | cons name r ih =>
    obtain ⟨l₁, hstep, hrest⟩ := bind_eq_ok.1 h
    by_cases hdot : name = "."
    · have hsame : l = l₁ := by
        rcases step_eq_ok.1 hstep with ⟨-, ⟨-, hl⟩ | ⟨hup, -⟩ | ⟨hplain, -⟩⟩
        · exact hl
        · exact absurd (hdot.symm.trans hup) (by decide)
        · simp [hdot, isDots] at hplain
      rw [List.filter_cons_of_neg (by simpa using hdot), hsame]
      exact ih hrest
    · rw [List.filter_cons_of_pos (by simpa using hdot)]
      exact bind_eq_ok.2 ⟨l₁, hstep, ih hrest⟩

theorem walk_of_locate (h : t.locate p = .ok l) : t.walk (t.startOf p) (names p) = .ok l := by
  unfold locate at h
  cases hempty : p.text.isEmpty with
  | true => simp [hempty, throw, throwThe, MonadExceptOf.throw, bind, Except.bind] at h
  | false =>
    simp only [hempty, Bool.false_eq_true, if_false] at h
    obtain ⟨k, hwalk, h⟩ := bind_eq_ok.1 h
    split at h
    · split at h
      · cases h
      · exact Except.ok.inj h ▸ hwalk
    · exact Except.ok.inj h ▸ hwalk

/-- Paths with the same components lead to the same place, if they lead anywhere. -/
theorem locate_unique (hkey : p.key = q.key) (hp : t.locate p = .ok l) (hq : t.locate q = .ok k) :
    l = k := by
  have hcomponents := Path.components_of_key hkey
  have hnames : (names p).filter (· ≠ ".") = (names q).filter (· ≠ ".") := by
    rw [← Path.filterMap_components, ← Path.filterMap_components, hcomponents]
  have habsolute : p.isAbsolute = q.isAbsolute := by
    rw [Bool.eq_iff_iff, ← Path.head?_components, ← Path.head?_components, hcomponents]
  have hwalk := walk_without_dots (walk_of_locate hp)
  rw [startOf, habsolute, hnames] at hwalk
  exact Except.ok.inj (hwalk.symm.trans (walk_without_dots (walk_of_locate hq)))

end FileTree

namespace Glob

variable {t : FileTree}

/-- The regular files that a pattern stands for. -/
def filesOf (t : FileTree) (g : PathPattern) : List Path :=
  (Id.run (g.expand t.reader)).filter fun p => t.kind? p = some .file

/-- The regular files that well-formed patterns of a list stand for, one pattern after the other. -/
def fileMatches (t : FileTree) (patterns : List String) : List Path :=
  patterns.flatMap fun text =>
    match PathPattern.ofText text with
    | .ok g => filesOf t g
    | .error _ => []

theorem fileMatches_cons {text : String} {g : PathPattern} (h : PathPattern.ofText text = .ok g)
    (patterns : List String) :
    fileMatches t (text :: patterns) = filesOf t g ++ fileMatches t patterns := by
  simp only [fileMatches, List.flatMap_cons, h]

theorem mem_fileMatches_insert {xs ys : List String} {text : String} {p : Path} :
    p ∈ fileMatches t (xs ++ text :: ys) ↔
      p ∈ fileMatches t (xs ++ ys) ∨ p ∈ fileMatches t [text] := by
  have happend (as bs : List String) : fileMatches t (as ++ bs) = fileMatches t as ++ fileMatches t bs :=
    List.flatMap_append
  rw [← List.singleton_append, happend, happend, happend]
  simp only [List.mem_append, or_assoc]
  exact or_congr_right or_comm

theorem located_of_mem_fileMatches {patterns : List String} {p : Path}
    (h : p ∈ fileMatches t patterns) : ∃ k, t.locate p = .ok k := by
  have hkind : t.kind? p = some .file := by
    obtain ⟨text, -, hp⟩ := List.mem_flatMap.1 h
    split at hp
    · simpa using (List.mem_filter.1 hp).2
    · cases hp
  unfold FileTree.kind? at hkind
  split at hkind
  · rename_i k hk
    exact ⟨k, hk⟩
  · cases hkind

theorem addFiles_eq (paths : List Path) (s : PathSet) :
    addFiles t.reader paths s = (paths.filter fun p => t.kind? p = some .file).foldl PathSet.add s := by
  induction paths generalizing s with
  | nil => rfl
  | cons p r ih =>
    by_cases hfile : t.kind? p = some .file
    · have hadd : addFiles t.reader (p :: r) s = addFiles t.reader r (s.add p) := by
        have hkind : t.reader.kind? p = some .file := hfile
        simp [addFiles, FileReader.isFile, hkind, bind, pure]
      rw [hadd, ih, List.filter_cons_of_pos (by simpa using hfile), List.foldl_cons]
    · have hskip : addFiles t.reader (p :: r) s = addFiles t.reader r s := by
        have hkind : ¬ t.reader.kind? p = some .file := hfile
        simp [addFiles, FileReader.isFile, hkind, bind, pure]
      rw [hskip, ih, List.filter_cons_of_neg (by simpa using hfile)]

theorem addMatches_eq_ok {patterns : List String} {s s' : PathSet} :
    addMatches t.reader patterns s = Except.ok s' ↔
      (∀ text ∈ patterns, ∃ g, PathPattern.ofText text = .ok g) ∧
        (fileMatches t patterns).foldl PathSet.add s = s' := by
  induction patterns generalizing s with
  | nil =>
    change Except.ok s = Except.ok s' ↔ _
    simp [fileMatches]
  | cons text r ih =>
    cases hg : PathPattern.ofText text with
    | error e =>
      have herror : addMatches t.reader (text :: r) s = Except.error ⟨text, e⟩ := by
        simp only [addMatches, hg, pure]
      rw [herror]
      refine iff_of_false nofun ?_
      rintro ⟨hall, -⟩
      obtain ⟨g, hg'⟩ := hall text List.mem_cons_self
      cases hg.symm.trans hg'
    | ok g =>
      have hnext : addMatches t.reader (text :: r) s =
          addMatches t.reader r ((filesOf t g).foldl PathSet.add s) := by
        simp only [addMatches, hg, bind, addFiles_eq, filesOf, Id.run]
      have hall : (∀ x ∈ text :: r, ∃ g, PathPattern.ofText x = .ok g) ↔
          ∀ x ∈ r, ∃ g, PathPattern.ofText x = .ok g := by
        rw [List.forall_mem_cons]
        exact and_iff_right ⟨g, hg⟩
      rw [hnext, ih, hall, fileMatches_cons hg, List.foldl_append]

theorem matchingFiles_eq_ok {patterns : List String} {paths : List Path} :
    matchingFiles t.reader patterns = Except.ok paths ↔
      (∀ text ∈ patterns, ∃ g, PathPattern.ofText text = .ok g) ∧
        SortedMap.values ((fileMatches t patterns).foldl PathSet.add .empty) = paths := by
  have hmap : matchingFiles t.reader patterns =
      (addMatches t.reader patterns .empty).map SortedMap.values := rfl
  rw [hmap]
  cases hadd : (addMatches t.reader patterns .empty : Except BadPattern PathSet) with
  | error e =>
    refine iff_of_false nofun ?_
    rintro ⟨hall, -⟩
    cases hadd.symm.trans (addMatches_eq_ok.2 ⟨hall, rfl⟩)
  | ok s =>
    obtain ⟨hall, rfl⟩ := addMatches_eq_ok.1 hadd
    change Except.ok _ = Except.ok paths ↔ _
    rw [Except.ok.injEq]
    exact (and_iff_right hall).symm

/-- The first spelling of a path stays. -/
theorem get?_add (s : PathSet) (p : Path) (key : List String) :
    SortedMap.get? (s.add p) key =
      (SortedMap.get? s key).or (if key = p.key then some p else none) := by
  unfold PathSet.add
  split
  · rename_i hsome
    obtain ⟨q, hq⟩ := Option.isSome_iff_exists.1 hsome
    by_cases hkey : key = p.key
    · rw [hkey, hq]
      rfl
    · rw [if_neg hkey, Option.or_none]
  · rename_i hnone
    rw [SortedMap.get?_insert]
    by_cases hkey : key = p.key
    · have hnew : SortedMap.get? s key = none := by
        rw [hkey]
        simpa using hnone
      rw [if_pos hkey, if_pos hkey, hnew]
      rfl
    · rw [if_neg hkey, if_neg hkey, Option.or_none]

theorem get?_foldl_add (s : PathSet) (found : List Path) (key : List String) :
    SortedMap.get? (found.foldl PathSet.add s) key =
      (SortedMap.get? s key).or (found.find? fun p => key = p.key) := by
  induction found generalizing s with
  | nil => rw [List.foldl_nil, List.find?_nil, Option.or_none]
  | cons p r ih =>
    rw [List.foldl_cons, ih, get?_add, Option.or_assoc]
    by_cases hkey : key = p.key
    · rw [List.find?_cons_of_pos (by simpa using hkey), if_pos hkey]
      rfl
    · rw [List.find?_cons_of_neg (by simpa using hkey), if_neg hkey]
      rfl

/-- The paths stand in the order of their components, and there is one for each that was found. -/
structure Lists (found paths : List Path) : Prop where
  increasing : paths.Pairwise fun p q => p.key < q.key
  sound : ∀ p ∈ paths, p ∈ found
  complete : ∀ p ∈ found, ∃ q ∈ paths, q.key = p.key

theorem lists_values (found : List Path) :
    Lists found (SortedMap.values (found.foldl PathSet.add .empty)) := by
  have hentry (key : List String) (p : Path) :
      (key, p) ∈ (found.foldl PathSet.add .empty).entries ↔
        found.find? (fun q => key = q.key) = some p := by
    rw [← SortedMap.get?_iff_mem, get?_foldl_add, SortedMap.get?_empty]
    rfl
  have hkey {e : List String × Path} (he : e ∈ (found.foldl PathSet.add .empty).entries) :
      e.1 = e.2.key := by
    simpa using List.find?_some ((hentry e.1 e.2).1 he)
  refine ⟨?_, ?_, ?_⟩
  · rw [SortedMap.values, List.pairwise_map]
    refine (SortedMap.increasing _).imp_of_mem ?_
    intro d e hd he hlt
    rwa [hkey hd, hkey he] at hlt
  · intro p hp
    obtain ⟨e, he, rfl⟩ := List.mem_map.1 hp
    exact List.mem_of_find?_eq_some ((hentry e.1 e.2).1 he)
  · intro p hp
    have hsome : (found.find? fun q => p.key = q.key).isSome :=
      List.find?_isSome.2 ⟨p, hp, by simp⟩
    obtain ⟨q, hq⟩ := Option.isSome_iff_exists.1 hsome
    refine ⟨q, List.mem_map.2 ⟨(p.key, q), (hentry _ _).2 hq, rfl⟩, ?_⟩
    simpa [eq_comm] using List.find?_some hq

theorem lists_of_matchingFiles {patterns : List String} {paths : List Path}
    (h : matchingFiles t.reader patterns = Except.ok paths) : Lists (fileMatches t patterns) paths := by
  obtain ⟨-, rfl⟩ := matchingFiles_eq_ok.1 h
  exact lists_values _

theorem matchingFiles_insert {xs ys : List String} {paths : List Path} {text : String}
    (h : matchingFiles t.reader (xs ++ ys) = Except.ok paths)
    (htext : ∃ g, PathPattern.ofText text = .ok g) :
    ∃ paths', matchingFiles t.reader (xs ++ text :: ys) = Except.ok paths' := by
  obtain ⟨hall, -⟩ := matchingFiles_eq_ok.1 h
  refine ⟨_, matchingFiles_eq_ok.2 ⟨?_, rfl⟩⟩
  intro x hx
  have hcases : x = text ∨ x ∈ xs ++ ys := by
    simpa [or_left_comm] using hx
  rcases hcases with rfl | hold
  · exact htext
  · exact hall x hold

end Glob

end WorkflowCompiler
