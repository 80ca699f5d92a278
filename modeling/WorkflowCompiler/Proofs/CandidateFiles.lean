import WorkflowCompiler.CommandLine.Execution
import WorkflowCompiler.Proofs.Locality
import WorkflowCompiler.Proofs.Patterns

/-!
What is loaded from the files that patterns stand for. Each path gives one candidate, except those that lead to the
file of the root. So a path that was not listed before adds a candidate even if its file is listed under another path,
and the name of that candidate is then defined twice.
-/

namespace WorkflowCompiler

theorem map_eq_of_map_eq {α β γ : Type} {f : α → β} {g : α → γ} {xs ys : List α}
    (h : xs.map f = ys.map f) (hg : ∀ x ∈ xs, ∀ y ∈ ys, f x = f y → g x = g y) :
    xs.map g = ys.map g := by
  induction xs generalizing ys with
  | nil =>
    rw [List.map_eq_nil_iff.1 h.symm]
  | cons x r ih =>
    cases ys with
    | nil => cases h
    | cons y s =>
      obtain ⟨hxy, hrest⟩ := List.cons.inj h
      rw [List.map_cons, List.map_cons, hg x (by simp) y (by simp) hxy]
      rw [ih hrest fun a ha b hb => hg a (by simp [ha]) b (by simp [hb])]

/-- The name of a source counts in errors only. -/
theorem Source.toExecutable_origin {s : Source} {origin : String} {e : Executable}
    (h : s.toExecutable origin = .ok e) (other : String) : s.toExecutable other = .ok e := by
  unfold toExecutable at h ⊢
  split at h
  · rename_i hproper
    rw [if_pos hproper]
    split at h
    · exact mapError_eq_ok.2 (mapError_eq_ok.1 h)
    · exact mapError_eq_ok.2 (mapError_eq_ok.1 h)
    · cases h
  · cases h

namespace Executable

variable {t : FileTree} {p q : Path} {k : Location} {e : Executable}

/-- What is loaded from a file of a tree. -/
def loadFrom (t : FileTree) (p : Path) : Except CompileError Executable :=
  Id.run (Executable.load t.reader p)

theorem loadFrom_eq_ok : loadFrom t p = .ok e ↔
    ∃ text s, t.contents p = .ok text ∧ Source.ofText text p.text = .ok s ∧
      s.toExecutable p.text = .ok e := by
  have hreader : t.reader.contents p = t.contents p := rfl
  simp only [loadFrom, Executable.load, Source.load, hreader, bind, pure, Id.run]
  cases t.contents p with
  | error e => simp
  | ok text =>
    cases hsource : Source.ofText text p.text with
    | error e => simp [hsource]
    | ok s => simp [hsource]

/-- The path counts in errors only. -/
theorem loadFrom_congr (hp : t.locate p = .ok k) (hq : t.locate q = .ok k) (h : loadFrom t p = .ok e) :
    loadFrom t q = .ok e := by
  obtain ⟨text, s, hcontents, hsource, hexecutable⟩ := loadFrom_eq_ok.1 h
  refine loadFrom_eq_ok.2 ⟨text, s, ?_, ?_, ?_⟩
  · rw [← hcontents, FileTree.contents, FileTree.contents, hp, hq]
  · exact mapError_eq_ok.2 (mapError_eq_ok.1 hsource)
  · exact Source.toExecutable_origin hexecutable q.text

end Executable

namespace Sources

variable {t : FileTree} {root : Executable} {home : Option Location} {paths : List Path}
  {es : List Executable} {c c' : Catalog}

/-- The paths that lead elsewhere than to the root's file. -/
def others (t : FileTree) (home : Option Location) (paths : List Path) : List Path :=
  paths.filter fun p => (t.locate p).toOption ≠ home

theorem others_cons_home {p : Path} (h : (t.locate p).toOption = home) (r : List Path) :
    others t home (p :: r) = others t home r :=
  List.filter_cons_of_neg (by simpa using h)

theorem others_cons {p : Path} (h : (t.locate p).toOption ≠ home) (r : List Path) :
    others t home (p :: r) = p :: others t home r :=
  List.filter_cons_of_pos (by simpa using h)

theorem addCandidates_cons_home {p : Path} (h : (t.locate p).toOption = home) (r : List Path)
    (c : Catalog) :
    addCandidates t.reader root home (p :: r) c = addCandidates t.reader root home r c := by
  have hplace : t.reader.location? p = home := h
  simp only [addCandidates, hplace, bind, if_true]

theorem addCandidates_cons {p : Path} {e : Executable} (h : (t.locate p).toOption ≠ home)
    (hload : Executable.loadFrom t p = .ok e) (hname : e.name ≠ root.name) (r : List Path)
    (c : Catalog) :
    addCandidates t.reader root home (p :: r) c =
      c.extend e >>= fun c => Id.run (addCandidates t.reader root home r c) := by
  have hplace : t.reader.location? p ≠ home := h
  have hload' : Executable.load t.reader p = Except.ok e := hload
  simp only [addCandidates, bind, hplace, hload', hname, if_false]
  cases c.extend e with
  | error _ => rfl
  | ok _ => rfl

theorem load_of_addCandidates {p : Path} {r : List Path} (h : (t.locate p).toOption ≠ home)
    (hadd : addCandidates t.reader root home (p :: r) c = Except.ok c') :
    ∃ e, Executable.loadFrom t p = .ok e ∧ e.name ≠ root.name := by
  have hplace : t.reader.location? p ≠ home := h
  simp only [addCandidates, bind, hplace, if_false] at hadd
  split at hadd
  · cases hadd
  · rename_i e hload
    split at hadd
    · cases hadd
    · rename_i hname
      exact ⟨e, hload, hname⟩

/-- Files that all load, none of them with the name of the root, make a catalog as their executables do. -/
theorem addCandidates_of_loads
    (hloads : (others t home paths).map (Executable.loadFrom t) = es.map .ok)
    (hroot : ∀ e ∈ es, e.name ≠ root.name) (c : Catalog) :
    addCandidates t.reader root home paths c = es.foldlM Catalog.extend c := by
  induction paths generalizing es c with
  | nil =>
    obtain rfl : es = [] := List.map_eq_nil_iff.1 hloads.symm
    rfl
  | cons p r ih =>
    by_cases hp : (t.locate p).toOption = home
    · rw [addCandidates_cons_home hp]
      rw [others_cons_home hp] at hloads
      exact ih hloads hroot c
    · rw [others_cons hp] at hloads
      cases es with
      | nil => cases hloads
      | cons e es =>
        obtain ⟨hload, hrest⟩ := List.cons.inj hloads
        obtain ⟨hname, hnames⟩ := List.forall_mem_cons.1 hroot
        rw [addCandidates_cons hp hload hname, List.foldlM_cons]
        congr 1
        funext c
        exact ih hrest hnames c

theorem loads_of_addCandidates (h : addCandidates t.reader root home paths c = Except.ok c') :
    ∃ es, (others t home paths).map (Executable.loadFrom t) = es.map .ok ∧
      (∀ e ∈ es, e.name ≠ root.name) ∧ c'.executables = c.executables ++ es := by
  induction paths generalizing c with
  | nil =>
    obtain rfl := Except.ok.inj h
    exact ⟨[], rfl, by simp, by simp⟩
  | cons p r ih =>
    by_cases hp : (t.locate p).toOption = home
    · rw [addCandidates_cons_home hp] at h
      rw [others_cons_home hp]
      exact ih h
    · obtain ⟨e, hload, hname⟩ := load_of_addCandidates hp h
      rw [addCandidates_cons hp hload hname] at h
      obtain ⟨c₁, hinsert, hrest⟩ := bind_eq_ok.1 h
      obtain ⟨es, hloads, hnames, hexecutables⟩ := ih hrest
      refine ⟨e :: es, ?_, List.forall_mem_cons.2 ⟨hname, hnames⟩, ?_⟩
      · rw [others_cons hp, List.map_cons, List.map_cons, hload, hloads]
      · rw [hexecutables, Catalog.extend_eq_ok.1 hinsert, List.append_assoc, List.singleton_append]

/-- An executable that cannot be added repeats a name. -/
theorem error_of_foldlM {err : CompileError} (h : es.foldlM Catalog.extend c = .error err) :
    ∃ e ∈ es, err = .duplicateExecutable e.name.text := by
  induction es generalizing c with
  | nil => cases h
  | cons e r ih =>
    rw [List.foldlM_cons] at h
    rcases bind_eq_error.1 h with hinsert | ⟨c₁, -, hrest⟩
    · exact ⟨e, List.mem_cons_self, (Catalog.extend_eq_error.1 hinsert).2⟩
    · obtain ⟨d, hd, herr⟩ := ih hrest
      exact ⟨d, List.mem_cons_of_mem _ hd, herr⟩

section Loading

variable {file : Path} {extra : List String} {configFile : Option Path} {config : Config} {s : Sources}

theorem load_eq (hconfig : Config.loadOrDefault t.reader configFile = Except.ok config)
    (hroot : Executable.loadFrom t file = .ok root)
    (hpaths : Glob.matchingFiles t.reader (patternsFor config file extra) = Except.ok paths) :
    load t.reader file extra configFile =
      match Id.run (addCandidates t.reader root (t.locate file).toOption paths .empty) with
      | .error e => Except.error (.source e)
      | .ok c => Except.ok ⟨root, c, config⟩ := by
  have hroot' : Executable.load t.reader file = Except.ok root := hroot
  have hhome : t.reader.location? file = (t.locate file).toOption := rfl
  cases hadd : (addCandidates t.reader root (t.locate file).toOption paths .empty :
      Except CompileError Catalog) with
  | error e => simp only [load, bind, pure, hconfig, hroot', hpaths, hhome, hadd, Id.run]
  | ok c => simp only [load, bind, pure, hconfig, hroot', hpaths, hhome, hadd, Id.run]

theorem load_eq_ok (h : load t.reader file extra configFile = Except.ok s) :
    ∃ paths, Config.loadOrDefault t.reader configFile = Except.ok s.config ∧
      Executable.loadFrom t file = .ok s.root ∧
      Glob.matchingFiles t.reader (patternsFor s.config file extra) = Except.ok paths ∧
      addCandidates t.reader s.root (t.locate file).toOption paths .empty =
        Except.ok s.candidates := by
  simp only [load, bind, pure] at h
  split at h
  · cases h
  · rename_i config hconfig
    split at h
    · cases h
    · rename_i root hroot
      split at h
      · cases h
      · rename_i paths hpaths
        split at h
        · cases h
        · rename_i candidates hcandidates
          obtain rfl := Except.ok.inj h
          exact ⟨paths, hconfig, hroot, hpaths, hcandidates⟩

end Loading

theorem mem_others {p : Path} :
    p ∈ others t home paths ↔ p ∈ paths ∧ (t.locate p).toOption ≠ home := by
  rw [others, List.mem_filter, decide_eq_true_iff]

/-- More is found than before, but no file that was not found before. -/
structure Respells (t : FileTree) (found new found' : List Path) : Prop where
  located : ∀ p ∈ found', ∃ k, t.locate p = .ok k
  members : ∀ p, p ∈ found' ↔ p ∈ found ∨ p ∈ new
  known : ∀ p ∈ new, ∃ q ∈ found, (t.locate p).toOption = (t.locate q).toOption

/-- Each new path leads to the file of the root or is known as a path. -/
def Listed (t : FileTree) (home : Option Location) (found new : List Path) : Prop :=
  ∀ p ∈ new, (t.locate p).toOption = home ∨ ∃ q ∈ found, q.key = p.key

instance {t : FileTree} {home : Option Location} {found new : List Path} :
    Decidable (Listed t home found new) :=
  inferInstanceAs (Decidable (∀ p ∈ new, _ ∨ ∃ q ∈ found, _))

theorem exists_listed {found : List Path} (hlists : Glob.Lists found paths)
    (hlocated : ∀ p ∈ found, ∃ k, t.locate p = .ok k) {p : Path} (hp : p ∈ found) :
    ∃ q ∈ paths, q.key = p.key ∧ t.locate q = t.locate p := by
  obtain ⟨q, hq, hkey⟩ := hlists.complete p hp
  obtain ⟨k, hk⟩ := hlocated p hp
  obtain ⟨j, hj⟩ := hlocated q (hlists.sound q hq)
  exact ⟨q, hq, hkey, by rw [hk, hj, FileTree.locate_unique hkey hj hk]⟩

namespace Respells

variable {found new found' paths' : List Path} {es' : List Executable}

theorem located_found (h : Respells t found new found') : ∀ p ∈ found, ∃ k, t.locate p = .ok k := by
  intro p hp
  exact h.located p ((h.members p).2 (.inl hp))

theorem exists_known (h : Respells t found new found') {p : Path} (hp : p ∈ found') :
    ∃ q ∈ found, t.locate q = t.locate p := by
  rcases (h.members p).1 hp with hfound | hnew
  · exact ⟨p, hfound, rfl⟩
  · obtain ⟨q, hq, hsame⟩ := h.known p hnew
    obtain ⟨k, hk⟩ := h.located p hp
    obtain ⟨j, hj⟩ := h.located_found q hq
    rw [hk, hj] at hsame
    exact ⟨q, hq, by rw [hk, hj, Option.some.inj hsame]⟩

/-- A new path loads what its file has loaded before. -/
theorem load (h : Respells t found new found') (hlists : Glob.Lists found paths)
    (hloads : (others t home paths).map (Executable.loadFrom t) = es.map .ok) {p : Path}
    (hp : p ∈ found') (hhome : (t.locate p).toOption ≠ home) :
    ∃ e ∈ es, Executable.loadFrom t p = .ok e := by
  obtain ⟨q, hq, hsame⟩ := h.exists_known hp
  obtain ⟨r, hr, -, hsame'⟩ := exists_listed hlists h.located_found hq
  have hrp : t.locate r = t.locate p := hsame'.trans hsame
  have hmem : Executable.loadFrom t r ∈ es.map Except.ok := by
    rw [← hloads]
    exact List.mem_map_of_mem (mem_others.2 ⟨hr, hrp ▸ hhome⟩)
  obtain ⟨e, he, hload⟩ := List.mem_map.1 hmem
  obtain ⟨k, hk⟩ := h.located p hp
  exact ⟨e, he, Executable.loadFrom_congr (hrp.trans hk) hk hload.symm⟩

theorem exists_loads (h : Respells t found new found') (hlists : Glob.Lists found paths)
    (hlists' : Glob.Lists found' paths')
    (hloads : (others t home paths).map (Executable.loadFrom t) = es.map .ok) :
    ∃ es' : List Executable,
      (others t home paths').map (Executable.loadFrom t) = es'.map .ok ∧ ∀ e ∈ es', e ∈ es := by
  have hload : ∀ p ∈ others t home paths', ∃ e ∈ es, Executable.loadFrom t p = .ok e := by
    intro p hp
    obtain ⟨hpaths, hhome⟩ := mem_others.1 hp
    exact h.load hlists hloads (hlists'.sound p hpaths) hhome
  obtain ⟨es', hes'⟩ := exists_mapM fun p hp => (hload p hp).imp fun _ he => he.2
  refine ⟨es', mapM_eq_ok.1 hes', ?_⟩
  intro e he
  have hmem : Except.ok e ∈ (others t home paths').map (Executable.loadFrom t) := by
    rw [mapM_eq_ok.1 hes']
    exact List.mem_map_of_mem he
  obtain ⟨p, hp, hpe⟩ := List.mem_map.1 hmem
  obtain ⟨d, hd, hpd⟩ := hload p hp
  obtain rfl := Except.ok.inj (hpe.symm.trans hpd)
  exact hd

/-- With known paths only, the files are loaded in the order in which they were. -/
theorem map_key_others (h : Respells t found new found') (hlists : Glob.Lists found paths)
    (hlists' : Glob.Lists found' paths') (hlisted : Listed t home found new) :
    (others t home paths').map Path.key = (others t home paths).map Path.key := by
  have hincreasing {found paths : List Path} (hlists : Glob.Lists found paths) :
      ((others t home paths).map Path.key).Pairwise (· < ·) :=
    List.pairwise_map.2 (hlists.increasing.filter _)
  -- Both lists increase, so they are equal once they have the same members.
  refine eq_of_increasing (f := id) (hincreasing hlists') (hincreasing hlists) ?_
  intro key
  simp only [List.mem_map, mem_others]
  constructor
  · rintro ⟨p, ⟨hp, hhome⟩, rfl⟩
    have hfound : ∃ q ∈ found, q.key = p.key := by
      rcases (h.members p).1 (hlists'.sound p hp) with hfound | hnew
      · exact ⟨p, hfound, rfl⟩
      · exact (hlisted p hnew).resolve_left hhome
    obtain ⟨q, hq, hkey⟩ := hfound
    obtain ⟨r, hr, hkey', hsame⟩ := exists_listed hlists h.located_found hq
    obtain ⟨k, hk⟩ := h.located p (hlists'.sound p hp)
    obtain ⟨j, hj⟩ := h.located_found q hq
    refine ⟨r, ⟨hr, ?_⟩, hkey'.trans hkey⟩
    rwa [hsame, hj, FileTree.locate_unique hkey hj hk, ← hk]
  · rintro ⟨p, ⟨hp, hhome⟩, rfl⟩
    obtain ⟨q, hq, hkey, hsame⟩ :=
      exists_listed hlists' h.located ((h.members p).2 (.inl (hlists.sound p hp)))
    exact ⟨q, ⟨hq, hsame ▸ hhome⟩, hkey⟩

theorem loads_of_listed (h : Respells t found new found') (hlists : Glob.Lists found paths)
    (hlists' : Glob.Lists found' paths') (hlisted : Listed t home found new)
    (hloads : (others t home paths).map (Executable.loadFrom t) = es.map .ok) :
    (others t home paths').map (Executable.loadFrom t) = es.map .ok := by
  rw [← hloads]
  refine map_eq_of_map_eq (h.map_key_others hlists hlists' hlisted) ?_
  intro p hp q hq hkey
  obtain ⟨hpaths', hhome⟩ := mem_others.1 hp
  obtain ⟨hpaths, -⟩ := mem_others.1 hq
  obtain ⟨e, -, hload⟩ := h.load hlists hloads (hlists'.sound p hpaths') hhome
  obtain ⟨k, hk⟩ := h.located p (hlists'.sound p hpaths')
  obtain ⟨j, hj⟩ := h.located_found q (hlists.sound q hpaths)
  obtain rfl := FileTree.locate_unique hkey hk hj
  rw [hload, Executable.loadFrom_congr hk hj hload]

/-- Two paths of one file load the same executable, so without a repeated name they are one path. -/
theorem listed_of_distinct (h : Respells t found new found') (hlists : Glob.Lists found paths)
    (hlists' : Glob.Lists found' paths')
    (hloads : (others t home paths).map (Executable.loadFrom t) = es.map .ok)
    (hloads' : (others t home paths').map (Executable.loadFrom t) = es'.map .ok)
    (hdistinct : (es'.map Executable.name).Nodup) : Listed t home found new := by
  have hnodup : ((others t home paths').map (Executable.loadFrom t)).Nodup := by
    rw [hloads']
    exact (List.Nodup.of_map _ hdistinct).map fun _ _ => Except.ok.inj
  intro p hp
  by_cases hhome : (t.locate p).toOption = home
  · exact .inl hhome
  · have hp' := (h.members p).2 (.inr hp)
    obtain ⟨q, hq, hsame⟩ := h.exists_known hp'
    obtain ⟨p', hp'', hpkey, hpsame⟩ := exists_listed hlists' h.located hp'
    obtain ⟨q', hq', hqkey, hqsame⟩ :=
      exists_listed hlists' h.located ((h.members q).2 (.inl hq))
    obtain ⟨e, -, hload⟩ := h.load hlists hloads hp' hhome
    obtain ⟨k, hk⟩ := h.located p hp'
    have hpload := Executable.loadFrom_congr hk (hpsame.trans hk) hload
    have hqload := Executable.loadFrom_congr hk (hqsame.trans (hsame.trans hk)) hload
    -- The new path and the known one lead to one file, and what it loads is listed once.
    have heq : p' = q' := List.inj_on_of_nodup_map hnodup
      (mem_others.2 ⟨hp'', hpsame ▸ hhome⟩)
      (mem_others.2 ⟨hq', hqsame.trans hsame ▸ hhome⟩) (hpload.trans hqload.symm)
    exact .inr ⟨q, hq, by rw [← hqkey, ← heq, hpkey]⟩

theorem addCandidates_of_listed (h : Respells t found new found') (hlists : Glob.Lists found paths)
    (hlists' : Glob.Lists found' paths')
    (hadd : addCandidates t.reader root home paths .empty = Except.ok c)
    (hlisted : Listed t home found new) :
    addCandidates t.reader root home paths' .empty = Except.ok c := by
  obtain ⟨es, hloads, hnames, hexecutables⟩ := loads_of_addCandidates hadd
  have hloads' := h.loads_of_listed hlists hlists' hlisted hloads
  rw [addCandidates_of_loads hloads' hnames]
  exact Catalog.ofList_eq_ok.2 (hexecutables.trans (List.nil_append es))

theorem addCandidates_of_not_listed (h : Respells t found new found')
    (hlists : Glob.Lists found paths) (hlists' : Glob.Lists found' paths')
    (hadd : addCandidates t.reader root home paths .empty = Except.ok c)
    (hlisted : ¬ Listed t home found new) :
    ∃ e ∈ c.executables, addCandidates t.reader root home paths' .empty =
      Except.error (.duplicateExecutable e.name.text) := by
  obtain ⟨es, hloads, hnames, hexecutables⟩ := loads_of_addCandidates hadd
  obtain ⟨es', hloads', hsub⟩ := h.exists_loads hlists hlists' hloads
  rw [addCandidates_of_loads hloads' fun e he => hnames e (hsub e he)]
  cases hfold : es'.foldlM Catalog.extend .empty with
  | error err =>
    obtain ⟨e, he, rfl⟩ := error_of_foldlM hfold
    exact ⟨e, hexecutables ▸ List.mem_append_right _ (hsub e he), rfl⟩
  | ok c' =>
    have hdistinct : (es'.map Executable.name).Nodup :=
      Catalog.ofList_eq_ok.1 hfold ▸ c'.distinct
    exact absurd (h.listed_of_distinct hlists hlists' hloads hloads' hdistinct) hlisted

end Respells

section Respelling

variable {file : Path} {xs ys : List String} {configFile : Option Path} {config : Config} {s : Sources}
  {pattern : String}

theorem patternsFor_of_ne_nil {extra : List String} (h : config.patterns extra ≠ []) :
    patternsFor config file extra = config.patterns extra := by
  unfold patternsFor
  split
  · rename_i hnil
    exact absurd hnil h
  · rfl

theorem patterns_append (config : Config) (xs ys : List String) :
    config.patterns (xs ++ ys) = config.patterns xs ++ ys := by
  rw [Config.patterns, Config.patterns, List.append_assoc]

theorem respells_insert (hknown : ∀ p ∈ Glob.fileMatches t [pattern],
      ∃ q ∈ Glob.fileMatches t (xs ++ ys), (t.locate p).toOption = (t.locate q).toOption) :
    Respells t (Glob.fileMatches t (xs ++ ys)) (Glob.fileMatches t [pattern])
      (Glob.fileMatches t (xs ++ pattern :: ys)) where
  located _ hp := Glob.located_of_mem_fileMatches hp
  members _ := Glob.mem_fileMatches_insert
  known := hknown

/-- What one more pattern does that finds no new file. A path is known by its components, not by the place that it
leads to: a file that is found under a new path is loaded again, and then its executable is defined twice. -/
theorem load_respelled (xs ys : List String) (pattern : String)
    (h : load t.reader file (xs ++ ys) configFile = Except.ok s)
    (hpatterns : s.config.patterns (xs ++ ys) ≠ [])
    (hpattern : ∃ g, Glob.PathPattern.ofText pattern = .ok g)
    (hknown : ∀ p ∈ Glob.fileMatches t [pattern],
      ∃ q ∈ Glob.fileMatches t (s.config.patterns (xs ++ ys)),
        (t.locate p).toOption = (t.locate q).toOption) :
    (Listed t (t.locate file).toOption (Glob.fileMatches t (s.config.patterns (xs ++ ys)))
        (Glob.fileMatches t [pattern]) →
      load t.reader file (xs ++ pattern :: ys) configFile = Except.ok s ∧
        CommandLine.compileFiles t.reader file (xs ++ pattern :: ys) configFile =
          CommandLine.compileFiles t.reader file (xs ++ ys) configFile) ∧
    (¬ Listed t (t.locate file).toOption (Glob.fileMatches t (s.config.patterns (xs ++ ys)))
        (Glob.fileMatches t [pattern]) →
      ∃ e ∈ s.candidates.executables,
        load t.reader file (xs ++ pattern :: ys) configFile =
          Except.error (.source (.duplicateExecutable e.name.text))) := by
  obtain ⟨paths, hconfig, hroot, hpaths, hadd⟩ := load_eq_ok h
  rw [patternsFor_of_ne_nil hpatterns] at hpaths
  rw [patterns_append] at hpaths hknown ⊢
  obtain ⟨paths', hpaths'⟩ := Glob.matchingFiles_insert hpaths hpattern
  have hlists := Glob.lists_of_matchingFiles hpaths
  have hlists' := Glob.lists_of_matchingFiles hpaths'
  have hrespells := respells_insert hknown
  have hnew : s.config.patterns (xs ++ pattern :: ys) ≠ [] := by simp [patterns_append]
  rw [← patterns_append, ← patternsFor_of_ne_nil hnew] at hpaths'
  have hload := load_eq hconfig hroot hpaths'
  constructor
  · intro hlisted
    have hsame : load t.reader file (xs ++ pattern :: ys) configFile = Except.ok s := by
      rw [hload, Id.run, hrespells.addCandidates_of_listed hlists hlists' hadd hlisted]
    refine ⟨hsame, ?_⟩
    simp only [CommandLine.compileFiles, hsame, h]
  · intro hlisted
    obtain ⟨e, he, hadd'⟩ := hrespells.addCandidates_of_not_listed hlists hlists' hadd hlisted
    refine ⟨e, he, ?_⟩
    rw [hload, Id.run, hadd']

end Respelling

end Sources

theorem exists_of_isOk {ε α : Type} {x : Id (Except ε α)} (h : (Id.run x).isOk = true) :
    ∃ a, x = Except.ok a := by
  cases x with
  | error e => cases h
  | ok a => exact ⟨a, rfl⟩

theorem eq_error_of_map {ε α : Type} {x : Id (Except ε α)} {e : ε}
    (h : (Id.run x).map (fun _ => ()) = .error e) : x = Except.error e := by
  cases x with
  | error d => rw [Except.error.inj h]
  | ok a => cases h

def libOperation (name : String) : String :=
  "namespace: n\noperation: \x7bname: " ++ name ++ ", action: \x7bscript: x\x7d\x7d\n"

/-- A root, and one candidate in a directory of its own. -/
def libTree : FileTree :=
  let main := (FileTree.fresh "work").put ["work", "main.yaml"] (.file (libOperation "main"))
  (main.put ["work", "lib"] .directory).put ["work", "lib", "a.yaml"] (.file (libOperation "a"))

theorem libTree_loads :
    ∃ s, Sources.load libTree.reader ⟨"main.yaml"⟩ ["lib/*.yaml"] none = Except.ok s ∧
      s.config = {} := by
  obtain ⟨s, h⟩ : ∃ s, Sources.load libTree.reader ⟨"main.yaml"⟩ ["lib/*.yaml"] none = Except.ok s :=
    exists_of_isOk (by decide +kernel)
  obtain ⟨_, hconfig, _⟩ := Sources.load_eq_ok h
  have hdefault : Config.loadOrDefault libTree.reader none = Except.ok {} := rfl
  exact ⟨s, h, Except.ok.inj (hconfig.symm.trans hdefault)⟩

/-- An idle slash makes no new path, but a way up and down again does. -/
theorem libTree_respelled :
    ∃ s, Sources.load libTree.reader ⟨"main.yaml"⟩ ["lib/*.yaml"] none = Except.ok s ∧
      Sources.load libTree.reader ⟨"main.yaml"⟩ ["lib/*.yaml", "lib//a.yaml"] none = Except.ok s ∧
      ∃ e ∈ s.candidates.executables,
        Sources.load libTree.reader ⟨"main.yaml"⟩ ["lib/*.yaml", "lib/../lib/a.yaml"] none =
          Except.error (.source (.duplicateExecutable e.name.text)) := by
  obtain ⟨s, h, hconfig⟩ := libTree_loads
  have hpatterns : s.config.patterns ["lib/*.yaml"] = ["lib/*.yaml"] := by
    rw [hconfig]
    rfl
  have hne : s.config.patterns ["lib/*.yaml"] ≠ [] := by
    rw [hpatterns]
    exact List.cons_ne_nil _ _
  refine ⟨s, h, ?_, ?_⟩
  · obtain ⟨hlisted, -⟩ := Sources.load_respelled ["lib/*.yaml"] [] "lib//a.yaml" h hne
      (exists_of_isOk (by decide +kernel))
      (by rw [List.append_nil, hpatterns]; decide +kernel)
    exact (hlisted (by rw [List.append_nil, hpatterns]; decide +kernel)).1
  · obtain ⟨-, hnew⟩ := Sources.load_respelled ["lib/*.yaml"] [] "lib/../lib/a.yaml" h hne
      (exists_of_isOk (by decide +kernel))
      (by rw [List.append_nil, hpatterns]; decide +kernel)
    exact hnew (by rw [List.append_nil, hpatterns]; decide +kernel)

/-- The second pattern finds one file, and finds it where the first does. -/
theorem libTree_loaded_twice :
    (∃ s, Sources.load libTree.reader ⟨"main.yaml"⟩ ["lib/*.yaml"] none = Except.ok s ∧
      s.config.patterns ["lib/*.yaml"] = ["lib/*.yaml"]) ∧
    Glob.fileMatches libTree ["lib/*.yaml"] = [⟨"lib/a.yaml"⟩] ∧
    Glob.fileMatches libTree ["lib/../lib/a.yaml"] = [⟨"lib/../lib/a.yaml"⟩] ∧
    libTree.locate ⟨"lib/../lib/a.yaml"⟩ = libTree.locate ⟨"lib/a.yaml"⟩ ∧
    Sources.load libTree.reader ⟨"main.yaml"⟩ ["lib/*.yaml", "lib/../lib/a.yaml"] none =
      Except.error (.source (.duplicateExecutable "n.a")) := by
  refine ⟨?_, by decide +kernel, by decide +kernel, by decide +kernel, ?_⟩
  · obtain ⟨s, h, hconfig⟩ := libTree_loads
    exact ⟨s, h, by rw [hconfig]; rfl⟩
  · exact eq_error_of_map (by decide +kernel)

end WorkflowCompiler
