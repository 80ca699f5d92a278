import WorkflowCompiler.Proofs.ReadOrder

/-!
Patterns as a set. Which files are loaded, and in which order, depends on which patterns there are and not on their
order or number, and so does what is loaded. Only the name of a file in an error can differ: a path that is found in
several spellings keeps the one that was found first.
-/

namespace WorkflowCompiler

variable {t : FileTree} {p q : Path} {a b : String}

/-- One error of a source that goes by two names. -/
inductive CompileError.Renamed (a b : String) : CompileError → CompileError → Prop where
  | invalid (problems : List String) :
    Renamed a b (.invalidSource a problems) (.invalidSource b problems)
  | unreadable (reason : String) :
    Renamed a b (.unreadableSource a reason) (.unreadableSource b reason)

open CompileError (Renamed)

/-- The name stands at the beginning of the text of the error, and the rest is the same. -/
theorem CompileError.Renamed.message {e e' : CompileError} (h : Renamed a b e e') :
    ∃ rest, e.message = a ++ rest ∧ e'.message = b ++ rest := by
  cases h with
  | invalid problems => exact ⟨": " ++ "; ".intercalate problems, String.append_assoc, String.append_assoc⟩
  | unreadable reason => exact ⟨": " ++ reason, String.append_assoc, String.append_assoc⟩

/-- The same result, or the same error under two names. -/
inductive SameBut {α : Type} (a b : String) : Except CompileError α → Except CompileError α → Prop where
  | ok (x : α) : SameBut a b (.ok x) (.ok x)
  | error {e e' : CompileError} (h : Renamed a b e e') : SameBut a b (.error e) (.error e')

theorem sameBut_mapError {ε α : Type} {f g : ε → CompileError} (h : ∀ e, Renamed a b (f e) (g e))
    (x : Except ε α) : SameBut a b (x.mapError f) (x.mapError g) := by
  cases x with
  | ok x => exact .ok x
  | error e => exact .error (h e)

theorem Source.sameBut_toExecutable (s : Source) (a b : String) :
    SameBut a b (s.toExecutable a) (s.toExecutable b) := by
  unfold toExecutable
  split
  · split
    · exact sameBut_mapError (fun _ => .invalid _) _
    · exact sameBut_mapError (fun _ => .invalid _) _
    · exact .error (.invalid _)
  · exact .error (.invalid _)

/-- Two paths to one file load the same, but for the name in an error. -/
theorem Executable.sameBut_loadFrom {k : Location} (hp : t.locate p = .ok k) (hq : t.locate q = .ok k) :
    SameBut p.text q.text (loadFrom t p) (loadFrom t q) := by
  have hcontents : t.reader.contents p = t.reader.contents q := by
    change t.contents p = t.contents q
    rw [FileTree.contents, FileTree.contents, hp, hq]
  have hsource : SameBut p.text q.text (Source.load t.reader p).run (Source.load t.reader q).run := by
    simp only [Source.load, hcontents, Id.run_bind]
    cases (t.reader.contents q).run with
    | error e => exact .error (.unreadable _)
    | ok text => exact sameBut_mapError (fun _ => .unreadable _) _
  have hnext (r : Path) : loadFrom t r = (Source.load t.reader r).run >>= fun s => s.toExecutable r.text := by
    simp only [loadFrom, Executable.load, Id.run_bind]
    cases (Source.load t.reader r).run <;> rfl
  rw [hnext, hnext]
  generalize (Source.load t.reader p).run = x at hsource
  generalize (Source.load t.reader q).run = y at hsource
  cases hsource with
  | ok s => exact s.sameBut_toExecutable p.text q.text
  | error h => exact .error h

namespace Sources

variable {root : Executable} {home : Option Location} {ps qs : List Path}

/-- The same result, or one error at one path that cannot be loaded: the texts of the error begin with two spellings
of the path, and the rest is the same. -/
inductive Alike (t : FileTree) (P Q : Path → Prop) {ε α : Type} (f : CompileError → ε) :
    Except ε α → Except ε α → Prop where
  | same (r : Except ε α) : Alike t P Q f r r
  | spelled {p q : Path} {e e' : CompileError} {rest : String} (hp : P p) (hq : Q q)
      (hkey : p.key = q.key) (he : Executable.loadFrom t p = .error e)
      (he' : Executable.loadFrom t q = .error e') (htext : e.message = p.text ++ rest)
      (htext' : e'.message = q.text ++ rest) : Alike t P Q f (.error (f e)) (.error (f e'))

theorem Alike.mono {P Q P' Q' : Path → Prop} {ε α : Type} {f : CompileError → ε} {r r' : Except ε α}
    (h : Alike t P Q f r r') (hP : ∀ p, P p → P' p) (hQ : ∀ q, Q q → Q' q) : Alike t P' Q' f r r' := by
  cases h with
  | same => exact .same r
  | spelled hp hq hkey he he' htext htext' =>
    exact .spelled (hP _ hp) (hQ _ hq) hkey he he' htext htext'

/-- What is loaded from a path by two spellings, and what is done with it after that. -/
theorem alike_bind {P Q : Path → Prop} {α : Type} {k : Location} (hp : P p) (hq : Q q)
    (hkey : p.key = q.key) (hk : t.locate p = .ok k) (hk' : t.locate q = .ok k)
    {f g : Executable → Except CompileError α} (h : ∀ e, Alike t P Q id (f e) (g e)) :
    Alike t P Q id (Executable.loadFrom t p >>= f) (Executable.loadFrom t q >>= g) := by
  have hload := Executable.sameBut_loadFrom hk hk'
  generalize hx : Executable.loadFrom t p = x at hload
  generalize hy : Executable.loadFrom t q = y at hload
  cases hload with
  | ok e => exact h e
  | error hname =>
    obtain ⟨rest, htext, htext'⟩ := hname.message
    exact .spelled hp hq hkey hx hy htext htext'

/-- Two runs over the same paths in two spellings. -/
theorem addCandidates_alike (hkeys : ps.map Path.key = qs.map Path.key)
    (hps : ∀ p ∈ ps, ∃ k, t.locate p = .ok k) (hqs : ∀ q ∈ qs, ∃ k, t.locate q = .ok k) (c : Catalog) :
    Alike t (· ∈ ps) (· ∈ qs) id (addCandidates t.reader root home ps c).run
      (addCandidates t.reader root home qs c).run := by
  induction ps generalizing qs c with
  | nil =>
    obtain rfl := List.map_eq_nil_iff.1 hkeys.symm
    exact .same _
  | cons p ps ih =>
    cases qs with
    | nil => cases hkeys
    | cons q qs =>
      obtain ⟨hkey, hkeys⟩ := List.cons.inj hkeys
      obtain ⟨⟨k, hk⟩, hps⟩ := List.forall_mem_cons.1 hps
      obtain ⟨⟨j, hj⟩, hqs⟩ := List.forall_mem_cons.1 hqs
      obtain rfl := FileTree.locate_unique hkey hk hj
      have hrest (c : Catalog) : Alike t (· ∈ p :: ps) (· ∈ q :: qs) id
          (addCandidates t.reader root home ps c).run (addCandidates t.reader root home qs c).run :=
        (ih hkeys hps hqs c).mono (fun _ => List.mem_cons_of_mem p) fun _ => List.mem_cons_of_mem q
      by_cases hhome : (t.locate p).toOption = home
      · have hhome' : (t.locate q).toOption = home := by rw [hj, ← hk, hhome]
        rw [addCandidates_cons_home hhome, addCandidates_cons_home hhome']
        exact hrest c
      · have hhome' : (t.locate q).toOption ≠ home := by rwa [hj, ← hk]
        rw [addCandidates_of_elsewhere hhome, addCandidates_of_elsewhere hhome', bind_assoc, bind_assoc]
        refine alike_bind List.mem_cons_self List.mem_cons_self hkey hk hj fun e => ?_
        cases enter root c e with
        | error err => exact .same _
        | ok c₁ => exact hrest c₁

end Sources

namespace Glob

/-- The path is spelled as it was found first. -/
def First (found : List Path) (p : Path) : Prop := found.find? (fun q => p.key = q.key) = some p

theorem first_of_matchingFiles {patterns : List String} {paths : List Path}
    (h : matchingFiles t.reader patterns = Except.ok paths) :
    ∀ p ∈ paths, First (fileMatches t patterns) p := by
  obtain ⟨-, rfl⟩ := matchingFiles_eq_ok.1 h
  intro p hp
  obtain ⟨⟨key, q⟩, he, rfl⟩ := List.mem_map.1 hp
  rw [← SortedMap.get?_iff_mem, get?_foldl_add, SortedMap.get?_empty, Option.none_or] at he
  obtain rfl : key = q.key := by simpa using List.find?_some he
  exact he

/-- The first pattern that is not well-formed. -/
def firstBad? (patterns : List String) : Option BadPattern :=
  patterns.findSome? fun text =>
    match PathPattern.ofText text with
    | .ok _ => none
    | .error e => some ⟨text, e⟩

theorem addMatches_eq_error {patterns : List String} {s : PathSet} {e : BadPattern} :
    addMatches t.reader patterns s = Except.error e ↔ firstBad? patterns = some e := by
  induction patterns generalizing s with
  | nil => exact iff_of_false nofun nofun
  | cons text r ih =>
    rw [firstBad?, List.findSome?_cons, ← firstBad?]
    cases hg : PathPattern.ofText text with
    | error err =>
      have herror : addMatches t.reader (text :: r) s = Except.error ⟨text, err⟩ := by
        simp only [addMatches, hg, pure]
      rw [herror]
      change _ ↔ some (⟨text, err⟩ : BadPattern) = some e
      exact ⟨fun h => congrArg some (Except.error.inj h),
        fun h => congrArg Except.error (Option.some.inj h)⟩
    | ok g =>
      have hnext : addMatches t.reader (text :: r) s =
          addMatches t.reader r ((filesOf t g).foldl PathSet.add s) := by
        simp only [addMatches, hg, bind, addFiles_eq, filesOf, Id.run]
      rw [hnext]
      exact ih

/-- Matching fails at the first pattern that is not well-formed. -/
theorem matchingFiles_eq_error {patterns : List String} {e : BadPattern} :
    matchingFiles t.reader patterns = Except.error e ↔ firstBad? patterns = some e := by
  have hmap : matchingFiles t.reader patterns =
      (addMatches t.reader patterns .empty).map SortedMap.values := rfl
  rw [hmap, ← addMatches_eq_error]
  cases (addMatches t.reader patterns .empty : Except BadPattern PathSet) with
  | error d =>
    exact ⟨fun h => congrArg Except.error (Except.error.inj h),
      fun h => congrArg Except.error (Except.error.inj h)⟩
  | ok s => exact iff_of_false nofun nofun

theorem firstBad?_append {xs : List String} (h : ∀ x ∈ xs, ∃ g, PathPattern.ofText x = .ok g)
    (before : List String) : firstBad? (before ++ xs) = firstBad? before := by
  have hnone : firstBad? xs = none := by
    rw [firstBad?, List.findSome?_eq_none_iff]
    intro x hx
    obtain ⟨g, hg⟩ := h x hx
    rw [hg]
  rw [firstBad?, List.findSome?_append, ← firstBad?, ← firstBad?, hnone, Option.or_none]

theorem mem_fileMatches_congr {xs ys : List String} (h : ∀ x, x ∈ xs ↔ x ∈ ys) :
    p ∈ fileMatches t xs ↔ p ∈ fileMatches t ys := by
  simp only [fileMatches, List.mem_flatMap, h]

/-- The same paths are listed, if in other spellings. -/
theorem map_key_of_lists {found found' paths paths' : List Path} (h : ∀ p, p ∈ found ↔ p ∈ found')
    (hlists : Lists found paths) (hlists' : Lists found' paths') :
    paths.map Path.key = paths'.map Path.key := by
  have hsub {found found' paths paths' : List Path} (h : ∀ p, p ∈ found → p ∈ found')
      (hlists : Lists found paths) (hlists' : Lists found' paths') (key : List String)
      (hkey : key ∈ paths.map Path.key) : key ∈ paths'.map Path.key := by
    obtain ⟨p, hp, rfl⟩ := List.mem_map.1 hkey
    obtain ⟨q, hq, hkey⟩ := hlists'.complete p (h p (hlists.sound p hp))
    exact hkey ▸ List.mem_map_of_mem hq
  refine eq_of_increasing (f := id) (List.pairwise_map.2 hlists.increasing)
    (List.pairwise_map.2 hlists'.increasing) fun key => ⟨?_, ?_⟩
  · exact hsub (fun p => (h p).1) hlists hlists' key
  · exact hsub (fun p => (h p).2) hlists' hlists key

end Glob

namespace Sources

variable {file : Path} {xs ys : List String} {configFile : Option Path} {config : Config}

/-- Loading fails before any pattern is looked at, or the patterns decide. -/
theorem load_early (t : FileTree) (file : Path) (configFile : Option Path) :
    (∃ err, ∀ extra, load t.reader file extra configFile = Except.error err) ∨
      ∃ config root, Config.loadOrDefault t.reader configFile = Except.ok config ∧
        Executable.loadFrom t file = .ok root := by
  cases hconfig : (Config.loadOrDefault t.reader configFile : Except ConfigError Config) with
  | error e =>
    refine .inl ⟨.config e, fun extra => ?_⟩
    simp only [load, bind, pure, hconfig]
  | ok config =>
    cases hroot : (Executable.load t.reader file : Except CompileError Executable) with
    | error e =>
      refine .inl ⟨.source e, fun extra => ?_⟩
      simp only [load, bind, pure, hconfig, hroot]
    | ok root => exact .inr ⟨config, root, rfl, hroot⟩

theorem load_eq_pattern {root : Executable} {e : Glob.BadPattern} {extra : List String}
    (hconfig : Config.loadOrDefault t.reader configFile = Except.ok config)
    (hroot : Executable.loadFrom t file = .ok root)
    (hpaths : Glob.matchingFiles t.reader (patternsFor config file extra) = Except.error e) :
    load t.reader file extra configFile = Except.error (.pattern e) := by
  have hroot' : Executable.load t.reader file = Except.ok root := hroot
  simp only [load, bind, pure, hconfig, hroot', hpaths]

/-- Given patterns come after those of the configuration; without any, all is the same. -/
theorem patternsFor_cases (hsame : ∀ x, x ∈ xs ↔ x ∈ ys) (config : Config) (file : Path) :
    xs = ys ∨ (patternsFor config file xs = config.patterns [] ++ xs ∧
      patternsFor config file ys = config.patterns [] ++ ys) := by
  have happend {zs : List String} (hne : zs ≠ []) :
      patternsFor config file zs = config.patterns [] ++ zs := by
    have hpatterns : config.patterns zs = config.patterns [] ++ zs := patterns_append config [] zs
    rw [patternsFor_of_ne_nil, hpatterns]
    rw [hpatterns]
    exact List.append_ne_nil_of_right_ne_nil _ hne
  by_cases hxs : xs = []
  · have hys : ys = [] := List.eq_nil_iff_forall_not_mem.2 fun x hx => by simpa [hxs] using (hsame x).2 hx
    exact .inl (hxs.trans hys.symm)
  · have hys : ys ≠ [] := by
      rintro rfl
      exact hxs (List.eq_nil_iff_forall_not_mem.2 fun x hx => by simpa using (hsame x).1 hx)
    exact .inr ⟨happend hxs, happend hys⟩

theorem mem_patternsFor_congr (hsame : ∀ x, x ∈ xs ↔ x ∈ ys) (config : Config) (file : Path)
    (x : String) : x ∈ patternsFor config file xs ↔ x ∈ patternsFor config file ys := by
  rcases patternsFor_cases hsame config file with rfl | ⟨hxs, hys⟩
  · exact Iff.rfl
  · rw [hxs, hys, List.mem_append, List.mem_append, hsame x]

theorem firstBad?_patternsFor (hsame : ∀ x, x ∈ xs ↔ x ∈ ys)
    (hvalid : ∀ x ∈ xs, ∃ g, Glob.PathPattern.ofText x = .ok g) (config : Config) (file : Path) :
    Glob.firstBad? (patternsFor config file xs) = Glob.firstBad? (patternsFor config file ys) := by
  rcases patternsFor_cases hsame config file with rfl | ⟨hxs, hys⟩
  · rfl
  · rw [hxs, hys, Glob.firstBad?_append hvalid, Glob.firstBad?_append]
    intro y hy
    exact hvalid y ((hsame y).2 hy)

/-- The same patterns in another order, and some of them more than once. -/
theorem load_alike (hsame : ∀ x, x ∈ xs ↔ x ∈ ys)
    (hvalid : ∀ x ∈ xs, ∃ g, Glob.PathPattern.ofText x = .ok g) :
    Alike t (Glob.First (matched t file xs configFile)) (Glob.First (matched t file ys configFile))
      LoadError.source (load t.reader file xs configFile).run (load t.reader file ys configFile).run := by
  rcases load_early t file configFile with ⟨err, herr⟩ | ⟨config, root, hconfig, hroot⟩
  · rw [herr, herr]
    exact .same _
  · rw [matched_eq hconfig, matched_eq hconfig]
    cases hpaths : (Glob.matchingFiles t.reader (patternsFor config file xs) :
        Except Glob.BadPattern (List Path)) with
    | error e =>
      have hpaths' : Glob.matchingFiles t.reader (patternsFor config file ys) = Except.error e := by
        rw [Glob.matchingFiles_eq_error, ← firstBad?_patternsFor hsame hvalid]
        exact Glob.matchingFiles_eq_error.1 hpaths
      rw [load_eq_pattern hconfig hroot hpaths, load_eq_pattern hconfig hroot hpaths']
      exact .same _
    | ok paths =>
      obtain ⟨paths', hpaths'⟩ : ∃ paths',
          Glob.matchingFiles t.reader (patternsFor config file ys) = Except.ok paths' := by
        obtain ⟨hall, -⟩ := Glob.matchingFiles_eq_ok.1 hpaths
        refine ⟨_, Glob.matchingFiles_eq_ok.2 ⟨fun x hx => ?_, rfl⟩⟩
        exact hall x ((mem_patternsFor_congr hsame config file x).2 hx)
      have hlists := Glob.lists_of_matchingFiles hpaths
      have hlists' := Glob.lists_of_matchingFiles hpaths'
      have hkeys : paths.map Path.key = paths'.map Path.key := by
        refine Glob.map_key_of_lists (fun p => ?_) hlists hlists'
        exact Glob.mem_fileMatches_congr (mem_patternsFor_congr hsame config file)
      have hadd : Alike t _ _ id
          (addCandidates t.reader root (t.locate file).toOption paths .empty).run
          (addCandidates t.reader root (t.locate file).toOption paths' .empty).run :=
        (addCandidates_alike hkeys (fun p hp => Glob.located_of_mem_fileMatches (hlists.sound p hp))
          (fun q hq => Glob.located_of_mem_fileMatches (hlists'.sound q hq)) .empty).mono
          (Glob.first_of_matchingFiles hpaths) (Glob.first_of_matchingFiles hpaths')
      rw [load_eq hconfig hroot hpaths, load_eq hconfig hroot hpaths']
      generalize (addCandidates t.reader root (t.locate file).toOption paths .empty).run = x at hadd
      generalize (addCandidates t.reader root (t.locate file).toOption paths' .empty).run = y at hadd
      cases hadd with
      | same => exact .same _
      | spelled hp hq hkey he he' htext htext' => exact .spelled hp hq hkey he he' htext htext'

theorem mem_matched_congr (hsame : ∀ x, x ∈ xs ↔ x ∈ ys) :
    p ∈ matched t file xs configFile ↔ p ∈ matched t file ys configFile := by
  unfold matched
  split
  · exact Iff.rfl
  · exact Glob.mem_fileMatches_congr (mem_patternsFor_congr hsame _ file)

/-- Where each path is found in one spelling only, errors are the same too. -/
theorem Alike.eq_of_once {found found' : List Path} {ε α : Type} {f : CompileError → ε} {r r' : Except ε α}
    (h : Alike t (Glob.First found) (Glob.First found') f r r') (hsub : ∀ p ∈ found', p ∈ found)
    (honce : ∀ p ∈ found, ∀ q ∈ found, p.key = q.key → p = q) : r = r' := by
  cases h with
  | same => rfl
  | @spelled p q e e' rest hp hq hkey he he' htext htext' =>
    have hpq : p = q := honce p (List.mem_of_find?_eq_some hp) q (hsub q (List.mem_of_find?_eq_some hq)) hkey
    obtain rfl : e = e' := Except.error.inj (he.symm.trans (hpq ▸ he'))
    rfl

/-- Neither the order of patterns nor their number matters to what is loaded, nor to an error, except for the spelling
of a path in it. Files are read in the order of their paths, each path once and the root's own file only as the root,
up to the first error. -/
theorem load_of_pattern_set (t : FileTree) (file : Path) (configFile : Option Path) (xs ys : List String)
    (hsame : ∀ x, x ∈ xs ↔ x ∈ ys) (hvalid : ∀ x ∈ xs, ∃ g, Glob.PathPattern.ofText x = .ok g) :
    Alike t (Glob.First (matched t file xs configFile)) (Glob.First (matched t file ys configFile))
      LoadError.source (load t.reader file xs configFile).run (load t.reader file ys configFile).run ∧
    ((∀ p ∈ matched t file xs configFile, ∀ q ∈ matched t file xs configFile, p.key = q.key → p = q) →
      load t.reader file xs configFile = load t.reader file ys configFile) ∧
    ∃ first loaded, Records (load t.recorder file xs configFile)
        (load t.reader file xs configFile) (first ++ loaded) ∧
      first <+: Config.reads t configFile ++ [file] ∧
      InTurn t (t.locate file).toOption (matched t file xs configFile) loaded ∧
      ∀ s, load t.reader file xs configFile = Except.ok s →
        Complete t (t.locate file).toOption (matched t file xs configFile) loaded := by
  have halike : Alike t _ _ LoadError.source (load t.reader file xs configFile).run
      (load t.reader file ys configFile).run := load_alike hsame hvalid
  refine ⟨halike, ?_, records_load t file xs configFile⟩
  intro honce
  exact halike.eq_of_once (fun p => (mem_matched_congr hsame).2) honce

end Sources

/-- A pattern twice, and one that finds the file of the root. -/
theorem libTree_pattern_set :
    (∃ s, Sources.load libTree.reader ⟨"main.yaml"⟩ ["lib/*.yaml", "*.yaml", "lib/*.yaml"] none =
      Except.ok s) ∧
    Sources.load libTree.reader ⟨"main.yaml"⟩ ["lib/*.yaml", "*.yaml", "lib/*.yaml"] none =
      Sources.load libTree.reader ⟨"main.yaml"⟩ ["*.yaml", "lib/*.yaml"] none ∧
    ∃ first loaded,
      Records (Sources.load libTree.recorder ⟨"main.yaml"⟩ ["lib/*.yaml", "*.yaml", "lib/*.yaml"] none)
        (Sources.load libTree.reader ⟨"main.yaml"⟩ ["lib/*.yaml", "*.yaml", "lib/*.yaml"] none)
        (first ++ loaded) ∧
      Sources.InTurn libTree (libTree.locate ⟨"main.yaml"⟩).toOption
        (Sources.matched libTree ⟨"main.yaml"⟩ ["lib/*.yaml", "*.yaml", "lib/*.yaml"] none) loaded ∧
      ∃ p ∈ loaded, p.key = Path.key ⟨"lib/a.yaml"⟩ := by
  have hsame : ∀ x, x ∈ ["lib/*.yaml", "*.yaml", "lib/*.yaml"] ↔ x ∈ ["*.yaml", "lib/*.yaml"] := by
    intro x
    simp only [List.mem_cons, List.not_mem_nil, or_false]
    tauto
  have hvalid : ∀ x ∈ ["lib/*.yaml", "*.yaml", "lib/*.yaml"],
      (Glob.PathPattern.ofText x).isOk = true := by decide +kernel
  obtain ⟨-, honce, first, loaded, hrecords, -, hturn, hcomplete⟩ :=
    Sources.load_of_pattern_set libTree ⟨"main.yaml"⟩ none ["lib/*.yaml", "*.yaml", "lib/*.yaml"]
      ["*.yaml", "lib/*.yaml"] hsame fun x hx => exists_of_isOk (hvalid x hx)
  obtain ⟨s, hs⟩ : ∃ s, Sources.load libTree.reader ⟨"main.yaml"⟩
      ["lib/*.yaml", "*.yaml", "lib/*.yaml"] none = Except.ok s := exists_of_isOk (by decide +kernel)
  refine ⟨⟨s, hs⟩, honce (by decide +kernel), first, loaded, hrecords, hturn, ?_⟩
  exact hcomplete s hs ⟨"lib/a.yaml"⟩ (by decide +kernel) (by decide +kernel)

/-- A root, and a file that declares nothing. -/
def faultyTree : FileTree :=
  let main := (FileTree.fresh "work").put ["work", "main.yaml"] (.file (libOperation "main"))
  (main.put ["work", "lib"] .directory).put ["work", "lib", "a.yaml"] (.file "namespace: n\n")

/-- The first pattern decides how the file is named. -/
theorem faultyTree_named_twice :
    (∀ x ∈ ["lib/a.yaml", "lib/./a.yaml"], ∃ g, Glob.PathPattern.ofText x = .ok g) ∧
    Sources.load faultyTree.reader ⟨"main.yaml"⟩ ["lib/a.yaml", "lib/./a.yaml"] none =
      Except.error (.source (.invalidSource "lib/a.yaml" [SourceProblem.neitherKind.message])) ∧
    Sources.load faultyTree.reader ⟨"main.yaml"⟩ ["lib/./a.yaml", "lib/a.yaml"] none =
      Except.error (.source (.invalidSource "lib/./a.yaml" [SourceProblem.neitherKind.message])) ∧
    (CompileError.invalidSource "lib/a.yaml" [SourceProblem.neitherKind.message]).message ≠
      (CompileError.invalidSource "lib/./a.yaml" [SourceProblem.neitherKind.message]).message := by
  have hvalid : ∀ x ∈ ["lib/a.yaml", "lib/./a.yaml"], (Glob.PathPattern.ofText x).isOk = true := by
    decide +kernel
  refine ⟨fun x hx => exists_of_isOk (hvalid x hx), ?_, ?_, ?_⟩
  · exact eq_error_of_map (by decide +kernel)
  · exact eq_error_of_map (by decide +kernel)
  · decide +kernel

end WorkflowCompiler
