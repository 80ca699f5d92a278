import WorkflowCompiler.Proofs.CandidateFiles
import WorkflowCompiler.Proofs.Lockstep

/-!
Which files are read, and in which order. The same code that loads sources from a tree of files is run against a
reader that notes every file whose text is asked for. The notes show that after the configuration and the root the
files that fit a pattern are read in the order of their paths, each path once, up to the first that is at fault.
-/

namespace WorkflowCompiler

variable {t : FileTree}

/-- Answers as the tree does and notes the files that are read. -/
def FileTree.recorder (t : FileTree) : FileReader (StateM (List Path)) where
  contents := fun p log => (t.contents p, log ++ [p])
  kind? := fun p => pure (t.kind? p)
  below := fun p => pure (t.below p)
  location? := fun p => pure (t.locate p).toOption

/-- The first computation gives the answer of the second and adds these files to the notes. -/
def Records {α : Type} (x : StateM (List Path) α) (y : Id α) (reads : List Path) : Prop :=
  ∀ log, x.run log = (y.run, log ++ reads)

section

variable {α β : Type} {x : StateM (List Path) α} {y : Id α} {reads reads' : List Path}

theorem records_pure (a : α) : Records (pure a) (pure a) [] := by
  intro log
  rw [List.append_nil]
  rfl

theorem Records.bind (h : Records x y reads) {f : α → StateM (List Path) β} {g : α → Id β}
    (h' : Records (f y.run) (g y.run) reads') : Records (x >>= f) (y >>= g) (reads ++ reads') := by
  intro log
  rw [StateT.run_bind, h log, ← List.append_assoc]
  exact h' (log ++ reads)

theorem records_contents (p : Path) : Records (t.recorder.contents p) (t.reader.contents p) [p] :=
  fun _ => rfl

end

/-- The computation does nothing but give the answer. -/
def Mirrors {m : Type → Type} [Monad m] {α : Type} (x : m α) (y : Id α) : Prop := x = pure y.run

section

variable {m : Type → Type} [Monad m] {α β : Type}

theorem mirrors_pure (a : α) : Mirrors (pure a : m α) (pure a) := rfl

theorem Mirrors.bind [LawfulMonad m] {x : m α} {y : Id α} (h : Mirrors x y) {f : α → m β}
    {g : α → Id β} (h' : ∀ a, Mirrors (f a) (g a)) : Mirrors (x >>= f) (y >>= g) := by
  rw [Mirrors, h, pure_bind]
  exact h' y.run

/-- Whatever can be answered without a note. -/
def mirroring (m : Type → Type) [Monad m] [LawfulMonad m] : Lockstep m Id where
  Rel := Mirrors
  pure := mirrors_pure
  bind := fun h h' => h.bind h'

end

/-- To look for files no text is needed. -/
theorem shows_recorder (t : FileTree) : (mirroring (StateM (List Path))).Shows t.recorder t.reader :=
  ⟨fun _ => rfl, fun _ => rfl⟩

theorem Mirrors.records {α : Type} {x : StateM (List Path) α} {y : Id α} (h : Mirrors x y) :
    Records x y [] := by
  rw [h]
  exact records_pure _

/-- The text of a source is asked for once. -/
theorem records_executable (p : Path) :
    Records (Executable.load t.recorder p) (Executable.load t.reader p) [p] := by
  have hsource : Records (Source.load t.recorder p) (Source.load t.reader p) [p] := by
    refine (records_contents p).bind ?_
    cases (t.reader.contents p).run with
    | error e => exact records_pure _
    | ok text => exact records_pure _
  refine hsource.bind ?_
  cases (Source.load t.reader p).run with
  | error e => exact records_pure _
  | ok s => exact records_pure _

namespace Config

/-- The configuration file that is read, if there is one. -/
def reads (t : FileTree) : Option Path → List Path
  | some path => [path]
  | none => if (t.kind? ⟨fileName⟩).isSome then [⟨fileName⟩] else []

theorem records_load (p : Path) : Records (Config.load t.recorder p) (Config.load t.reader p) [p] := by
  refine (records_contents p).bind ?_
  cases (t.reader.contents p).run with
  | error e => exact records_pure _
  | ok text =>
    dsimp only
    cases ofText text with
    | error e => exact records_pure _
    | ok c => exact records_pure _

theorem records_loadOrDefault (given : Option Path) :
    Records (loadOrDefault t.recorder given) (loadOrDefault t.reader given) (reads t given) := by
  cases given with
  | some path => exact records_load path
  | none =>
    have hthere : Mirrors (t.recorder.exists? ⟨fileName⟩) (t.reader.exists? ⟨fileName⟩) :=
      (shows_recorder t).exists? _
    have hkind : (t.reader.exists? ⟨fileName⟩).run = (t.kind? ⟨fileName⟩).isSome := rfl
    rw [← List.nil_append (reads t none)]
    refine hthere.records.bind ?_
    rw [hkind, reads]
    split
    · exact records_load _
    · exact records_pure _

end Config

namespace Sources

variable {root : Executable} {home : Option Location} {file : Path} {extra : List String}
  {configFile : Option Path} {found loaded paths : List Path}

/-- A candidate joins the others, unless its name is that of the root or of one of them. -/
def enter (root : Executable) (c : Catalog) (e : Executable) : Except CompileError Catalog :=
  if e.name = root.name then .error (.duplicateExecutable root.name.text) else c.extend e

/-- What is done with the next path that leads elsewhere than to the root's file. -/
theorem addCandidates_step {m : Type → Type} [Monad m] [LawfulMonad m] {R : FileReader m} {p : Path}
    {place : Option Location} (hplace : R.location? p = pure place) (h : place ≠ home) (r : List Path)
    (c : Catalog) :
    addCandidates R root home (p :: r) c = Executable.load R p >>= fun x =>
      match x >>= enter root c with
      | .error e => pure (.error e)
      | .ok c => addCandidates R root home r c := by
  rw [addCandidates, hplace, pure_bind, if_neg h]
  congr 1
  funext x
  cases x with
  | error e => rfl
  | ok e =>
    have henter : (Except.ok e >>= enter root c) = enter root c e := rfl
    rw [henter, enter]
    by_cases hname : e.name = root.name
    · simp only [hname, if_true]
    · cases hinsert : c.extend e with
      | error err => simp only [hname, if_false, hinsert]
      | ok c₁ => simp only [hname, if_false, hinsert]

theorem addCandidates_of_elsewhere {p : Path} (h : (t.locate p).toOption ≠ home) (r : List Path)
    (c : Catalog) :
    addCandidates t.reader root home (p :: r) c = (Executable.loadFrom t p >>= enter root c) >>= fun c =>
      Id.run (addCandidates t.reader root home r c) := by
  rw [addCandidates_step rfl h]
  change (match Executable.loadFrom t p >>= enter root c with
    | .error e => Except.error e
    | .ok c => Id.run (addCandidates t.reader root home r c)) = _
  cases Executable.loadFrom t p >>= enter root c <;> rfl

/-- Candidates are read one after the other, all of them unless one is at fault. -/
theorem records_addCandidates (paths : List Path) (c : Catalog) :
    ∃ loaded, Records (addCandidates t.recorder root home paths c)
        (addCandidates t.reader root home paths c) loaded ∧ loaded <+: others t home paths ∧
      ∀ c', addCandidates t.reader root home paths c = Except.ok c' → loaded = others t home paths := by
  induction paths generalizing c with
  | nil => exact ⟨[], records_pure _, List.prefix_refl _, fun _ _ => rfl⟩
  | cons p r ih =>
    by_cases hhome : (t.locate p).toOption = home
    · obtain ⟨loaded, hrecords, hfront, hall⟩ := ih c
      have hskip : addCandidates t.recorder root home (p :: r) c = addCandidates t.recorder root home r c := by
        have hplace : t.recorder.location? p = pure home := congrArg pure hhome
        rw [addCandidates, hplace, pure_bind, if_pos rfl]
      rw [others_cons_home hhome, addCandidates_cons_home hhome, hskip]
      exact ⟨loaded, hrecords, hfront, hall⟩
    · have hnext : addCandidates t.reader root home (p :: r) c = _ := addCandidates_of_elsewhere hhome r c
      have hread {reads : List Path} (hrest : ∀ x, Executable.loadFrom t p >>= enter root c = x →
          Records (match x with
              | .error e => pure (.error e)
              | .ok c => addCandidates t.recorder root home r c)
            (match x with
              | .error e => pure (.error e)
              | .ok c => addCandidates t.reader root home r c) reads) :
          Records (addCandidates t.recorder root home (p :: r) c)
            (addCandidates t.reader root home (p :: r) c) (p :: reads) := by
        rw [addCandidates_step rfl hhome, addCandidates_step rfl hhome]
        exact (records_executable p).bind (hrest _ rfl)
      rw [others_cons hhome]
      cases hstep : (Executable.loadFrom t p >>= enter root c) with
      | error e =>
        rw [hstep] at hnext
        refine ⟨[p], hread ?_, ?_, ?_⟩
        · rintro _ rfl
          rw [hstep]
          exact records_pure _
        · exact (List.prefix_cons_inj p).2 List.nil_prefix
        · intro c' hc'
          cases hnext.symm.trans hc'
      | ok c₁ =>
        rw [hstep] at hnext
        obtain ⟨loaded, hrecords, hfront, hall⟩ := ih c₁
        refine ⟨p :: loaded, hread ?_, (List.prefix_cons_inj p).2 hfront, ?_⟩
        · rintro _ rfl
          rw [hstep]
          exact hrecords
        · intro c' hc'
          rw [hall c' (hnext.symm.trans hc')]

/-- The regular files that the patterns stand for, as far as the configuration can be read. -/
def matched (t : FileTree) (file : Path) (extra : List String) (configFile : Option Path) : List Path :=
  match Id.run (Config.loadOrDefault t.reader configFile) with
  | .error _ => []
  | .ok config => Glob.fileMatches t (patternsFor config file extra)

theorem matched_eq {config : Config}
    (h : Config.loadOrDefault t.reader configFile = Except.ok config) :
    matched t file extra configFile = Glob.fileMatches t (patternsFor config file extra) := by
  have hrun : (Config.loadOrDefault t.reader configFile).run = .ok config := h
  rw [matched, hrun]

/-- The paths increase, they are found and lead elsewhere than to the root's file, and no such path is passed over. -/
structure InTurn (t : FileTree) (home : Option Location) (found loaded : List Path) : Prop where
  increasing : loaded.Pairwise fun p q => p.key < q.key
  sound : ∀ p ∈ loaded, p ∈ found ∧ (t.locate p).toOption ≠ home
  gapless : ∀ p ∈ found, (t.locate p).toOption ≠ home → ∀ q ∈ loaded, p.key < q.key →
    ∃ p' ∈ loaded, p'.key = p.key

theorem inTurn_nil : InTurn t home found [] := ⟨.nil, by simp, by simp⟩

/-- Each path that is found and leads elsewhere than to the root's file. -/
def Complete (t : FileTree) (home : Option Location) (found loaded : List Path) : Prop :=
  ∀ p ∈ found, (t.locate p).toOption ≠ home → ∃ q ∈ loaded, q.key = p.key

theorem complete_others (hlists : Glob.Lists found paths)
    (hlocated : ∀ p ∈ found, ∃ k, t.locate p = .ok k) : Complete t home found (others t home paths) := by
  intro p hp hhome
  obtain ⟨q, hq, hkey, hsame⟩ := exists_listed hlists hlocated hp
  exact ⟨q, mem_others.2 ⟨hq, hsame ▸ hhome⟩, hkey⟩

theorem inTurn_of_front (hlists : Glob.Lists found paths)
    (hlocated : ∀ p ∈ found, ∃ k, t.locate p = .ok k) (h : loaded <+: others t home paths) :
    InTurn t home found loaded := by
  have hincreasing : (others t home paths).Pairwise fun p q => p.key < q.key :=
    hlists.increasing.filter _
  refine ⟨hincreasing.sublist h.sublist, ?_, ?_⟩
  · intro p hp
    obtain ⟨hpaths, hhome⟩ := mem_others.1 (h.subset hp)
    exact ⟨hlists.sound p hpaths, hhome⟩
  · intro p hp hhome q hq hlt
    obtain ⟨p', hp', hkey⟩ := complete_others hlists hlocated p hp hhome
    obtain ⟨rest, hrest⟩ := h
    rw [← hrest] at hp' hincreasing
    rcases List.mem_append.1 hp' with hp' | hp'
    · exact ⟨p', hp', hkey⟩
    · have hgt : q.key < p'.key := (List.pairwise_append.1 hincreasing).2.2 q hq p' hp'
      rw [hkey] at hgt
      exact absurd hgt (List.lt_asymm hlt)

/-- Loading goes wrong before any candidate is read, or what is read after the root is read for the candidates. -/
theorem records_load_cases (t : FileTree) (file : Path) (extra : List String) (configFile : Option Path) :
    (∃ first, Records (load t.recorder file extra configFile) (load t.reader file extra configFile) first ∧
      first <+: Config.reads t configFile ++ [file] ∧
      ∀ s, load t.reader file extra configFile ≠ Except.ok s) ∨
    ∃ config root paths, Config.loadOrDefault t.reader configFile = Except.ok config ∧
      Executable.loadFrom t file = .ok root ∧
      Glob.matchingFiles t.reader (patternsFor config file extra) = Except.ok paths ∧
      ∀ loaded, Records (addCandidates t.recorder root (t.locate file).toOption paths .empty)
          (addCandidates t.reader root (t.locate file).toOption paths .empty) loaded →
        Records (load t.recorder file extra configFile) (load t.reader file extra configFile)
          (Config.reads t configFile ++ ([file] ++ loaded)) := by
  have hconfigs := Config.records_loadOrDefault (t := t) configFile
  cases hconfig : (Config.loadOrDefault t.reader configFile).run with
  | error e =>
    refine .inl ⟨Config.reads t configFile ++ [], hconfigs.bind ?_, by simp, ?_⟩
    · rw [hconfig]
      exact records_pure _
    · intro s hs
      obtain ⟨_, hconfig', -⟩ := load_eq_ok hs
      cases hconfig.symm.trans hconfig'
  | ok config =>
    cases hroot : (Executable.load t.reader file).run with
    | error e =>
      refine .inl ⟨Config.reads t configFile ++ [file], hconfigs.bind ?_, List.prefix_refl _, ?_⟩
      · rw [hconfig]
        refine (records_executable file).bind ?_
        rw [hroot]
        exact records_pure _
      · intro s hs
        obtain ⟨_, -, hroot', -⟩ := load_eq_ok hs
        cases hroot.symm.trans hroot'
    | ok root =>
      have hhome : Records (t.recorder.location? file) (t.reader.location? file) [] :=
        records_pure (t.locate file).toOption
      have hmirrors : Mirrors (Glob.matchingFiles t.recorder (patternsFor config file extra))
          (Glob.matchingFiles t.reader (patternsFor config file extra)) :=
        (shows_recorder t).matchingFiles _
      have hfound := hmirrors.records
      cases hpaths : (Glob.matchingFiles t.reader (patternsFor config file extra)).run with
      | error e =>
        refine .inl ⟨Config.reads t configFile ++ [file], hconfigs.bind ?_, List.prefix_refl _, ?_⟩
        · rw [hconfig]
          refine (records_executable file).bind ?_
          rw [hroot]
          refine hhome.bind (hfound.bind ?_)
          rw [hpaths]
          exact records_pure _
        · intro s hs
          obtain ⟨_, hconfig', -, hpaths', -⟩ := load_eq_ok hs
          obtain rfl := Except.ok.inj (hconfig.symm.trans hconfig')
          cases hpaths.symm.trans hpaths'
      | ok paths =>
        refine .inr ⟨config, root, paths, hconfig, hroot, hpaths, fun loaded hloaded => hconfigs.bind ?_⟩
        rw [hconfig]
        refine (records_executable file).bind ?_
        rw [hroot, ← List.append_nil loaded]
        refine hhome.bind (hfound.bind ?_)
        rw [hpaths]
        refine hloaded.bind ?_
        cases (addCandidates t.reader root (t.locate file).toOption paths .empty).run with
        | error e => exact records_pure _
        | ok c => exact records_pure _

/-- The configuration and the root are read first, and then the candidates in turn, all of them if nothing is at
fault. -/
theorem records_load (t : FileTree) (file : Path) (extra : List String) (configFile : Option Path) :
    ∃ first loaded, Records (load t.recorder file extra configFile)
        (load t.reader file extra configFile) (first ++ loaded) ∧
      first <+: Config.reads t configFile ++ [file] ∧
      InTurn t (t.locate file).toOption (matched t file extra configFile) loaded ∧
      ∀ s, load t.reader file extra configFile = Except.ok s →
        Complete t (t.locate file).toOption (matched t file extra configFile) loaded := by
  rcases records_load_cases t file extra configFile with
    ⟨first, hrecords, hfirst, hfails⟩ | ⟨config, root, paths, hconfig, hroot, hpaths, hrest⟩
  · refine ⟨first, [], by rwa [List.append_nil], hfirst, inTurn_nil, ?_⟩
    intro s hs
    exact absurd hs (hfails s)
  · have hlists := Glob.lists_of_matchingFiles hpaths
    have hlocated : ∀ p ∈ Glob.fileMatches t (patternsFor config file extra), ∃ k, t.locate p = .ok k :=
      fun _ hp => Glob.located_of_mem_fileMatches hp
    obtain ⟨loaded, hloaded, hfront, hall⟩ := records_addCandidates paths .empty
    refine ⟨Config.reads t configFile ++ [file], loaded, ?_, List.prefix_refl _, ?_, ?_⟩
    · rw [List.append_assoc]
      exact hrest loaded hloaded
    · rw [matched_eq hconfig]
      exact inTurn_of_front hlists hlocated hfront
    · intro s hs
      obtain ⟨_, hconfig', hroot', hpaths', hadd⟩ := load_eq_ok hs
      obtain rfl := Except.ok.inj (hconfig.symm.trans hconfig')
      obtain rfl := Except.ok.inj (hroot.symm.trans hroot')
      obtain rfl := Except.ok.inj (hpaths.symm.trans hpaths')
      rw [matched_eq hconfig, hall _ hadd]
      exact complete_others hlists hlocated

end Sources

end WorkflowCompiler
