import WorkflowCompiler.Proofs.AtomicSave
import WorkflowCompiler.Proofs.NewDirectories

/-!
What is left behind when a new project cannot be made. Its directories come first and its files after them, one by
one, and nothing is taken back. So the files that are there in the end are the ones before the first that could not be
written, and perhaps a part of that one. With one of them there is a configuration, which stands in the way of the next
attempt.
-/

namespace WorkflowCompiler

namespace Template

open FileTree

variable {F : FileSystem} {s s' : F.State} {t t' : FileTree} {dir : Path} {fs : List (Path × String)}

/-- The files are there with their texts, and all others are as they were, but for the one whose writing broke off. -/
structure Leaves (t t' : FileTree) (written : List (Path × String)) (broken : Option Path) : Prop where
  found : ∀ f ∈ written, t'.contents f.1 = .ok f.2
  others : ∀ k, t'.file? k = t.file? k ∨ (∃ f ∈ written, t'.Spot f.1 k) ∨ ∃ p ∈ broken, t'.Spot p k

theorem leaves_nil (h : ∀ k, t'.file? k = t.file? k) : Leaves t t' [] none :=
  ⟨by simp, fun k => .inl (h k)⟩

theorem leaves_of_writes {p : Path} {text : String} {r : Except FileError Unit}
    (h : t.Writes p text r t') : Leaves t t' [] (some p) :=
  ⟨by simp, fun k => (h.keeps.2 k).imp_right fun hk => .inr ⟨p, rfl, hk⟩⟩

theorem Leaves.of_file {u : FileTree} {written : List (Path × String)} {broken : Option Path}
    (h : Leaves t t' written broken) (hfile : ∀ k, t.file? k = u.file? k) :
    Leaves u t' written broken :=
  ⟨h.found, fun k => (h.others k).imp_left fun hk => hk.trans (hfile k)⟩

theorem getLast?_of_spot {p : Path} {k : Location} (h : t.Spot p k) :
    (names p).getLast? = k.getLast? := by
  obtain ⟨l, name, hplace, rfl⟩ := h
  obtain ⟨-, -, front, hfront, -⟩ := target_some_eq_ok.1 hplace.target
  rw [hfront, List.getLast?_concat, List.getLast?_concat]

/-- One file more, under a name that the later ones do not have. -/
theorem Leaves.cons {t₁ : FileTree} {p : Path} {text : String} {written : List (Path × String)}
    {broken : Option Path} (hwrite : t.write p text = .ok t₁) (hkeep : Keeps t₁ t')
    (h : Leaves t₁ t' written broken)
    (hnew : ∀ f ∈ written, (names p).getLast? ≠ (names f.1).getLast?)
    (hbroken : ∀ q ∈ broken, (names p).getLast? ≠ (names q).getLast?) :
    Leaves t t' ((p, text) :: written) broken := by
  obtain ⟨k, hspot, hfile, -, hothers⟩ := spot_of_write hwrite
  have hspot' := hkeep.spot hspot
  refine ⟨List.forall_mem_cons.2 ⟨?_, h.found⟩, ?_⟩
  · refine hspot'.contents (((h.others k).resolve_right ?_).trans hfile)
    rintro (⟨f, hf, hk⟩ | ⟨q, hq, hk⟩)
    · exact hnew f hf ((getLast?_of_spot hspot').trans (getLast?_of_spot hk).symm)
    · exact hbroken q hq ((getLast?_of_spot hspot').trans (getLast?_of_spot hk).symm)
  · intro j
    rcases h.others j with hj | ⟨f, hf, hj⟩ | hj
    · by_cases hjk : j = k
      · exact .inr (.inl ⟨(p, text), List.mem_cons_self, hjk ▸ hspot'⟩)
      · exact .inl (hj.trans (hothers j hjk))
    · exact .inr (.inl ⟨f, List.mem_cons_of_mem _ hf, hj⟩)
    · exact .inr (.inr hj)

/-- Files are written in turn, up to the first that cannot be. -/
theorem writeAll_cases (hdistinct : (fs.map fun f => (names f.1).getLast?).Nodup)
    {r : Except Error Unit} (h : (writeAll F.store fs).run s = (r, s')) :
    Keeps (F.tree s) (F.tree s') ∧ ((r = .ok () ∧ Leaves (F.tree s) (F.tree s') fs none) ∨
      ∃ written f rest e, fs = written ++ f :: rest ∧ r = .error (.write f.1 e) ∧
        Leaves (F.tree s) (F.tree s') written (some f.1) ∧
        (written = [] → (F.tree s).Writes f.1 f.2 (.error e) (F.tree s'))) := by
  induction fs generalizing s r with
  | nil =>
    obtain ⟨rfl, rfl⟩ := Prod.mk.inj h
    exact ⟨.refl _, .inl ⟨rfl, leaves_nil fun _ => rfl⟩⟩
  | cons f fs ih =>
    obtain ⟨p, text⟩ := f
    rw [List.map_cons, List.nodup_cons] at hdistinct
    obtain ⟨hnew, hdistinct⟩ := hdistinct
    obtain ⟨made, s₁, hwrite, h⟩ := run_bind_eq.1 h
    have hwrite := F.write hwrite
    cases made with
    | error e =>
      obtain ⟨rfl, rfl⟩ := Prod.mk.inj h
      exact ⟨hwrite.keeps.1,
        .inr ⟨[], (p, text), fs, e, rfl, rfl, leaves_of_writes hwrite, fun _ => hwrite⟩⟩
    | ok _ =>
      have hapart (f : Path × String) (hf : f ∈ fs) : (names p).getLast? ≠ (names f.1).getLast? :=
        fun heq => hnew (heq ▸ List.mem_map_of_mem hf)
      obtain ⟨hkeep, ⟨rfl, hleaves⟩ | ⟨written, f, rest, e, rfl, rfl, hleaves, -⟩⟩ := ih hdistinct h
      · exact ⟨hwrite.keeps.1.trans hkeep,
          .inl ⟨rfl, .cons hwrite.eq_ok hkeep hleaves hapart (by simp)⟩⟩
      · refine ⟨hwrite.keeps.1.trans hkeep,
          .inr ⟨(p, text) :: written, f, rest, e, rfl, rfl, ?_, by simp⟩⟩
        refine .cons hwrite.eq_ok hkeep hleaves (fun g hg => hapart g (List.mem_append_left _ hg)) ?_
        intro q hq
        obtain rfl := Option.some.inj hq
        exact hapart f (by simp)

/-- Where the configuration of a project is. -/
def configPath (dir : Path) : Path := dir.join ⟨Config.fileName⟩

theorem fits_config : Fits Config.fileName := ⟨⟨by decide, by decide⟩, by decide, by decide⟩

theorem fits_library : Fits "lib" := ⟨⟨by decide, by decide⟩, by decide, by decide⟩

/-- No two files of a project have the same name. -/
theorem nodup_files (dir : Path) : ((files dir).map fun f => (names f.1).getLast?).Nodup := by
  have hlast {name : String} (h : Path.Plain name) (dir : Path) :
      (names (dir.join ⟨name⟩)).getLast? = some name := by
    rw [names_join h, List.getLast?_concat]
  have hnames : (files dir).map (fun f => (names f.1).getLast?) =
      [some Config.fileName, some "greet_all.yaml", some "greet.yaml"] := by
    simp only [files, List.map_cons, List.map_nil]
    rw [hlast fits_config.toPlain, hlast ⟨by decide, by decide⟩, hlast ⟨by decide, by decide⟩]
  rw [hnames]
  decide

/-- A project is refused, or its directories are made, and after them its files. -/
theorem create_cases {r : Except Error (List Path)} (h : (create F.store dir).run s = (r, s')) :
    ∃ there s₁, (F.store.exists? (configPath dir)).run s = (there, s₁) ∧
      ((there = true ∧ r = .error (.occupied (configPath dir)) ∧ s' = s₁) ∨
      (there = false ∧ ∃ made s₂, (F.store.makeDirectories (dir.join ⟨"lib"⟩)).run s₁ = (made, s₂) ∧
        ((∃ e, r = .error (.directory e) ∧ s' = s₂) ∨
          ∃ w, (writeAll F.store (files dir)).run s₂ = (w, s') ∧
            r = w.map fun _ => (files dir).map Prod.fst))) := by
  obtain ⟨there, s₁, hthere, h⟩ := run_bind_eq.1 h
  refine ⟨there, s₁, hthere, ?_⟩
  cases there with
  | true =>
    obtain ⟨rfl, rfl⟩ := Prod.mk.inj h
    exact .inl ⟨rfl, rfl, rfl⟩
  | false =>
    obtain ⟨made, s₂, hmade, h⟩ := run_bind_eq.1 h
    refine .inr ⟨rfl, made, s₂, hmade, ?_⟩
    cases made with
    | error e =>
      obtain ⟨rfl, rfl⟩ := Prod.mk.inj h
      exact .inl ⟨e, rfl, rfl⟩
    | ok _ =>
      obtain ⟨w, s₃, hwrite, h⟩ := run_bind_eq.1 h
      refine .inr ⟨w, ?_⟩
      cases w with
      | error e =>
        obtain ⟨rfl, rfl⟩ := Prod.mk.inj h
        exact ⟨hwrite, rfl⟩
      | ok _ =>
        obtain ⟨rfl, rfl⟩ := Prod.mk.inj h
        exact ⟨hwrite, rfl⟩

/-- How making a project can go wrong, with the files that are written by then. -/
inductive Failure (dir : Path) : Error → List (Path × String) → Prop where
  | occupied : Failure dir (.occupied (configPath dir)) []
  | directory (e : FileError) : Failure dir (.directory e) []
  | write {written rest : List (Path × String)} {f : Path × String} (e : FileError)
      (h : files dir = written ++ f :: rest) : Failure dir (.write f.1 e) written

/-- The files that are written are those before the one that could not be. -/
theorem Failure.written_eq {p : Path} {e : FileError} {written : List (Path × String)}
    (h : Failure dir (.write p e) written) : written = (files dir).takeWhile fun f => f.1 ≠ p := by
  cases h with
  | @write _ rest f _ hfiles =>
    have hdistinct := nodup_files dir
    rw [hfiles, List.map_append, List.map_cons, List.nodup_append] at hdistinct
    have hbefore : ∀ g ∈ written, g.1 ≠ f.1 := by
      intro g hg heq
      refine hdistinct.2.2 _ (List.mem_map_of_mem hg) _ List.mem_cons_self ?_
      rw [heq]
    rw [hfiles, List.takeWhile_append_of_pos (by simpa using hbefore), List.takeWhile_cons_of_neg (by simp),
      List.append_nil]

/-- The file whose writing may have broken off. -/
def Error.broken? : Error → Option Path
  | .write p _ => some p
  | _ => none

theorem kind?_of_contents {p : Path} {text : String} (h : t.contents p = .ok text) :
    t.kind? p = some .file := by
  obtain ⟨k, hlocate, hentry⟩ := contents_eq_ok.1 h
  exact kind?_eq_some.2 ⟨k, _, hlocate, hentry, rfl⟩

/-- Where nothing was, only a text that was begun can be there after a write that failed. -/
theorem kind?_of_writes {p : Path} {text : String} {e : FileError} (h : t.Writes p text (.error e) t')
    (hnone : t.kind? p = none) : (t'.kind? p).isSome ↔ ∃ part, t'.contents p = .ok part := by
  constructor
  · intro hsome
    cases h with
    | failed => simp [hnone] at hsome
    | brokenOff _ hwritable left =>
      obtain ⟨l, name, hplace, hfree, rfl⟩ := writable_eq_ok hwritable
      have hspot := (keeps_leave (by simp) hfree left).spot ⟨l, name, hplace, rfl⟩
      cases left with
      | some part => exact ⟨part, hspot.contents (file?_leave (by simp) _)⟩
      | none =>
        rw [hspot.kind?_eq_none (by rw [leave, entry?_erase (by simp), if_pos rfl])] at hsome
        cases hsome
  · rintro ⟨part, hpart⟩
    rw [kind?_of_contents hpart]
    rfl

/-- With any file there is a configuration, since it comes first. -/
theorem occupied_of_leaves {written rest : List (Path × String)} {f : Path × String}
    {broken : Option Path} (hfiles : files dir = written ++ f :: rest) (h : Leaves t t' written broken)
    (hne : written ≠ []) : (t'.kind? (configPath dir)).isSome := by
  obtain ⟨g, others, rfl⟩ := List.exists_cons_of_ne_nil hne
  obtain ⟨rfl, -⟩ := List.cons.inj hfiles
  have hkind : t'.kind? (configPath dir) = some .file :=
    kind?_of_contents (h.found _ List.mem_cons_self)
  rw [hkind]
  rfl

/-- The directory is there, or the path to it does not go up. -/
def Direct (t : FileTree) (dir : Path) : Prop :=
  t.kind? dir = some .directory ∨ (t.Rooted ∧ ".." ∉ names dir)

theorem kind?_of_direct (hdirect : Direct (F.tree s) dir) {made : Except FileError Unit}
    (h : (F.store.makeDirectories (dir.join ⟨"lib"⟩)).run s = (made, s'))
    (hnone : (F.tree s).kind? (configPath dir) = none) :
    (F.tree s').kind? (configPath dir) = none := by
  rcases hdirect with hthere | ⟨hroot, hup⟩
  · exact FileSystem.kind?_of_there hthere fits_library fits_config (by decide) h hnone
  · exact FileSystem.kind?_of_straight hroot hup fits_library fits_config (by decide) h hnone

theorem create_eq_error {e : Error} (h : (create F.store dir).run s = (.error e, s')) :
    ∃ written, Failure dir e written ∧ Leaves (F.tree s) (F.tree s') written e.broken? ∧
      (written = [] → Direct (F.tree s) dir → F.Sees →
        (((F.tree s').kind? (configPath dir)).isSome ↔ ((F.tree s).kind? (configPath dir)).isSome ∨
          (e.broken? = some (configPath dir) ∧
            ∃ part, (F.tree s').contents (configPath dir) = .ok part))) ∧
      (written ≠ [] → ((F.tree s').kind? (configPath dir)).isSome) := by
  obtain ⟨there, s₁, hthere, hcases⟩ := create_cases h
  obtain ⟨htree, hsees⟩ := FileSystem.exists?_run hthere
  obtain ⟨-, hoccupied, rfl⟩ | ⟨rfl, made, s₂, hmade, hrest⟩ := hcases
  · obtain rfl := Except.error.inj hoccupied
    refine ⟨[], .occupied, leaves_nil fun _ => by rw [htree], ?_, by simp⟩
    intro _ _ _
    simp [htree, Error.broken?]
  · rw [← htree]
    have hadds := FileSystem.addsDirectories_of_makeFirst hmade
    have hnone (hF : F.Sees) : (F.tree s₁).kind? (configPath dir) = none := by
      rw [htree]
      simpa using hsees hF
    obtain ⟨d, hdirectory, rfl⟩ | ⟨w, hwrite, hr⟩ := hrest
    · obtain rfl := Except.error.inj hdirectory
      refine ⟨[], .directory d, leaves_nil hadds.file, ?_, by simp⟩
      intro _ hdirect hF
      simp [kind?_of_direct hdirect hmade (hnone hF), hnone hF, Error.broken?]
    · obtain ⟨-, ⟨rfl, -⟩ | ⟨written, f, rest, d, hfiles, rfl, hleaves, hfirst⟩⟩ :=
        writeAll_cases (nodup_files dir) hwrite
      · cases hr
      · obtain rfl := Except.error.inj hr
        have hleaves := hleaves.of_file hadds.file
        refine ⟨written, .write d hfiles, hleaves, ?_, occupied_of_leaves hfiles hleaves⟩
        rintro rfl hdirect hF
        obtain ⟨rfl, -⟩ := List.cons.inj hfiles
        have hwrites : (F.tree s₂).Writes (configPath dir) config (.error d) (F.tree s') := hfirst rfl
        rw [kind?_of_writes hwrites (kind?_of_direct hdirect hmade (hnone hF)), hnone hF]
        simp [Error.broken?, configPath]

theorem create_eq_ok {made : List Path} (h : (create F.store dir).run s = (.ok made, s')) :
    Leaves (F.tree s) (F.tree s') (files dir) none := by
  obtain ⟨there, s₁, hthere, ⟨-, herror, -⟩ | ⟨-, _, s₂, hmade, ⟨_, herror, -⟩ | ⟨w, hwrite, hr⟩⟩⟩ :=
    create_cases h
  · cases herror
  · cases herror
  · obtain ⟨-, ⟨-, hleaves⟩ | ⟨_, _, _, _, -, rfl, -⟩⟩ := writeAll_cases (nodup_files dir) hwrite
    · rw [← (FileSystem.exists?_run hthere).1]
      exact hleaves.of_file (FileSystem.addsDirectories_of_makeFirst hmade).file
    · cases hr

end Template

namespace CommandLine

open Template

variable {F : FileSystem} {s s' : F.State} {dir : Path}

/-- The command reports how the project was made. -/
theorem runIn_init {report : Report} (h : (Command.init dir).runIn F s = (report, s')) :
    ∃ r, (create F.store dir).run s = (r, s') ∧
      ((∃ e, r = .error e ∧ report = { error := some (.template e) }) ∨
        (∃ made, r = .ok made) ∧ report.error = none) := by
  obtain ⟨work, s₀, hwork, h⟩ := run_bind_eq.1 h
  obtain ⟨rfl, rfl⟩ := Prod.mk.inj hwork
  obtain ⟨r, s₁, hcreate, h⟩ := run_bind_eq.1 h
  refine ⟨r, ?_⟩
  cases r with
  | error e =>
    obtain ⟨rfl, rfl⟩ := Prod.mk.inj h
    exact ⟨hcreate, .inl ⟨e, rfl, rfl⟩⟩
  | ok made =>
    obtain ⟨rfl, rfl⟩ := Prod.mk.inj h
    exact ⟨hcreate, .inr ⟨⟨made, rfl⟩, rfl⟩⟩

/-- A new project is turned down for the configuration that is there, and nothing is changed. -/
def Refuses (F : FileSystem) (s : F.State) (dir : Path) : Prop :=
  ((Command.init dir).runIn F s).1 = { error := some (.template (.occupied (configPath dir))) } ∧
    F.tree ((Command.init dir).runIn F s).2 = F.tree s

instance : Decidable (Refuses F s dir) := inferInstanceAs (Decidable (_ ∧ _))

theorem refuses_iff (hF : F.Sees) : Refuses F s dir ↔ ((F.tree s).kind? (configPath dir)).isSome := by
  obtain ⟨report, s', h⟩ : ∃ report s', (Command.init dir).runIn F s = (report, s') := ⟨_, _, rfl⟩
  obtain ⟨r, hcreate, hr⟩ := runIn_init h
  obtain ⟨there, s₁, hthere, hcases⟩ := create_cases hcreate
  obtain ⟨htree, hsees⟩ := FileSystem.exists?_run hthere
  rw [Refuses, h, ← hsees hF]
  obtain ⟨rfl, rfl, rfl⟩ | ⟨rfl, _, _, -, hrest⟩ := hcases
  · obtain ⟨e, he, rfl⟩ | ⟨⟨_, hok⟩, -⟩ := hr
    · obtain rfl := Except.error.inj he
      exact iff_of_true ⟨rfl, htree⟩ rfl
    · cases hok
  · refine iff_of_false ?_ (by simp)
    rintro ⟨rfl, -⟩
    obtain ⟨e, rfl, he⟩ | ⟨-, hnone⟩ := hr
    · obtain rfl := CommandError.template.inj (Option.some.inj (congrArg Report.error he))
      obtain ⟨_, herror, -⟩ | ⟨w, hwrite, hr⟩ := hrest
      · cases herror
      · obtain ⟨-, ⟨rfl, -⟩ | ⟨_, _, _, _, -, rfl, -⟩⟩ := writeAll_cases (nodup_files dir) hwrite
        · cases hr
        · cases hr
    · cases hnone

/-- On every file system, a new project has all its files, or those before the first that could not be written, with any
part of that one; no other file is changed. Without any of them, another attempt is refused only if this one was or a
part of the configuration is there, as long as the way to the directory does not go up through directories that are not
there. With one of them it is refused. -/
theorem init_outcome (F : FileSystem) (dir : Path) (s : F.State) :
    (∀ report s', (Command.init dir).runIn F s = (report, s') → report.error = none →
      Leaves (F.tree s) (F.tree s') (files dir) none) ∧
    ∀ report s' err, (Command.init dir).runIn F s = (report, s') → report.error = some err →
      ∃ e written, err = .template e ∧ Failure dir e written ∧
        Leaves (F.tree s) (F.tree s') written e.broken? ∧
        (F.Sees →
          (written = [] → Direct (F.tree s) dir →
            (Refuses F s' dir ↔ Refuses F s dir ∨ (e.broken? = some (configPath dir) ∧
              ∃ part, (F.tree s').contents (configPath dir) = .ok part))) ∧
          (written ≠ [] → Refuses F s' dir)) := by
  constructor
  · intro report s' h hnone
    obtain ⟨r, hcreate, ⟨e, -, rfl⟩ | ⟨⟨made, rfl⟩, -⟩⟩ := runIn_init h
    · cases hnone
    · exact create_eq_ok hcreate
  · intro report s' err h herr
    obtain ⟨r, hcreate, ⟨e, rfl, rfl⟩ | ⟨-, hnone⟩⟩ := runIn_init h
    · obtain rfl := Option.some.inj herr
      obtain ⟨written, hfailure, hleaves, hfree, htaken⟩ := create_eq_error hcreate
      refine ⟨e, written, rfl, hfailure, hleaves, fun hF => ?_⟩
      simp only [refuses_iff hF]
      exact ⟨fun hnil hdirect => hfree hnil hdirect hF, htaken⟩
    · cases hnone.symm.trans herr

/-- A directory stands where the flow of the project should be. -/
def blockedTree : FileTree :=
  ((FileTree.fresh "work").put ["work", "lib"] .directory).put ["work", "lib", "greet_all.yaml"] .directory

/-- A file stands where a directory should be. -/
def notesTree : FileTree :=
  (FileTree.fresh "work").put ["work", "notes"] (.file "")

theorem rooted_notesTree : notesTree.Rooted :=
  (FileTree.rooted_fresh "work").put (l := ["work"]) (by decide +kernel) (by decide +kernel) _

/-- All files, the configuration alone, none, and on a full disk a part of the configuration. -/
theorem blockedTree_outcome :
    Leaves (.fresh "work") ((Command.init ⟨"."⟩).runIn .ofTree (.fresh "work")).2 (files ⟨"."⟩) none ∧
    Leaves blockedTree ((Command.init ⟨"."⟩).runIn .ofTree blockedTree).2 ((files ⟨"."⟩).take 1)
      (some ⟨"./lib/greet_all.yaml"⟩) ∧
    Refuses .ofTree ((Command.init ⟨"."⟩).runIn .ofTree blockedTree).2 ⟨"."⟩ ∧
    (∀ k, ((Command.init ⟨"notes/new"⟩).runIn .ofTree notesTree).2.file? k = notesTree.file? k) ∧
    ¬ Refuses .ofTree ((Command.init ⟨"notes/new"⟩).runIn .ofTree notesTree).2 ⟨"notes/new"⟩ ∧
    Leaves notesTree ((Command.init ⟨"."⟩).runIn (.full (some "")) notesTree).2 []
      (some ⟨"./flowplan.toml"⟩) ∧
    Refuses (.full (some "")) ((Command.init ⟨"."⟩).runIn (.full (some "")) notesTree).2 ⟨"."⟩ := by
  have hmade (run : Report × FileTree) (h : (Command.init ⟨"."⟩).runIn .ofTree (.fresh "work") = run)
      (hnone : run.1.error = none) : Leaves (.fresh "work") run.2 (files ⟨"."⟩) none :=
    (init_outcome .ofTree ⟨"."⟩ (.fresh "work")).1 run.1 run.2 h hnone
  have hblocked (run : Report × FileTree) (h : (Command.init ⟨"."⟩).runIn .ofTree blockedTree = run)
      (herr : run.1.error = some (.template (.write ⟨"./lib/greet_all.yaml"⟩ .isADirectory))) :
      Leaves blockedTree run.2 ((files ⟨"."⟩).take 1) (some ⟨"./lib/greet_all.yaml"⟩) ∧
        Refuses .ofTree run.2 ⟨"."⟩ := by
    obtain ⟨e, written, he, hfailure, hleaves, hrefuses⟩ :=
      (init_outcome .ofTree ⟨"."⟩ blockedTree).2 run.1 run.2 _ h herr
    obtain rfl := CommandError.template.inj he
    have hone : written = (files ⟨"."⟩).take 1 := hfailure.written_eq.trans (by decide +kernel)
    obtain rfl := hone
    exact ⟨hleaves, (hrefuses FileSystem.sees_ofTree).2 (List.cons_ne_nil _ _)⟩
  have hnotes (run : Report × FileTree)
      (h : (Command.init ⟨"notes/new"⟩).runIn .ofTree notesTree = run)
      (herr : run.1.error = some (.template (.directory .notADirectory))) :
      (∀ k, run.2.file? k = notesTree.file? k) ∧ ¬ Refuses .ofTree run.2 ⟨"notes/new"⟩ := by
    obtain ⟨e, written, he, hfailure, hleaves, hrefuses⟩ :=
      (init_outcome .ofTree ⟨"notes/new"⟩ notesTree).2 run.1 run.2 _ h herr
    obtain rfl := CommandError.template.inj he
    have hnil : written = [] := by
      cases hfailure
      rfl
    obtain rfl := hnil
    refine ⟨fun k => (hleaves.others k).resolve_right (by simp [Error.broken?]), ?_⟩
    refine mt ((hrefuses FileSystem.sees_ofTree).1 rfl (.inr ⟨rooted_notesTree, by decide +kernel⟩)).1 ?_
    rintro (hbefore | ⟨hbroken, -⟩)
    · revert hbefore
      decide +kernel
    · cases hbroken
  have htorn (run : Report × FileTree)
      (h : (Command.init ⟨"."⟩).runIn (.full (some "")) notesTree = run)
      (herr : run.1.error = some (.template (.write ⟨"./flowplan.toml"⟩
        (.other "No space left on device (os error 28)"))))
      (hpart : run.2.contents ⟨"./flowplan.toml"⟩ = .ok "") :
      Leaves notesTree run.2 [] (some ⟨"./flowplan.toml"⟩) ∧ Refuses (.full (some "")) run.2 ⟨"."⟩ := by
    obtain ⟨e, written, he, hfailure, hleaves, hrefuses⟩ :=
      (init_outcome (.full (some "")) ⟨"."⟩ notesTree).2 run.1 run.2 _ h herr
    obtain rfl := CommandError.template.inj he
    have hnil : written = [] := hfailure.written_eq.trans (by decide +kernel)
    obtain rfl := hnil
    have hconfig : configPath ⟨"."⟩ = ⟨"./flowplan.toml"⟩ := by decide +kernel
    have hthere : notesTree.kind? ⟨"."⟩ = some .directory := by decide +kernel
    refine ⟨hleaves, ((hrefuses (FileSystem.sees_full _)).1 rfl (.inl hthere)).2 (.inr ⟨?_, "", ?_⟩)⟩
    · rw [hconfig]
      rfl
    · rw [hconfig]
      exact hpart
  obtain ⟨hleaves, hrefuses⟩ := hblocked _ rfl (by decide +kernel)
  obtain ⟨hsame, hfree⟩ := hnotes _ rfl (by decide +kernel)
  exact ⟨hmade _ rfl (by decide +kernel), hleaves, hrefuses, hsame, hfree,
    htorn _ rfl (by decide +kernel) (by decide +kernel)⟩

/-- The configuration is left behind. Where the way to the directory goes up, a directory that is made can stand in
its place. -/
theorem blockedTree_left_behind :
    ((Command.init ⟨"."⟩).runOn blockedTree).1.error =
      some (.template (.write ⟨"./lib/greet_all.yaml"⟩ .isADirectory)) ∧
    blockedTree.file? ["work", "flowplan.toml"] = none ∧
    ((Command.init ⟨"."⟩).runOn blockedTree).2.file? ["work", "flowplan.toml"] = some Template.config ∧
    ¬ Refuses .ofTree blockedTree ⟨"."⟩ ∧
    Refuses .ofTree ((Command.init ⟨"."⟩).runOn blockedTree).2 ⟨"."⟩ ∧
    ((Command.init ⟨"flowplan.toml/.."⟩).runOn (.fresh "work")).1.error =
      some (.template (.write ⟨"flowplan.toml/../flowplan.toml"⟩ .isADirectory)) ∧
    ¬ Refuses .ofTree (.fresh "work") ⟨"flowplan.toml/.."⟩ ∧
    Refuses .ofTree ((Command.init ⟨"flowplan.toml/.."⟩).runOn (.fresh "work")).2
      ⟨"flowplan.toml/.."⟩ := by
  decide +kernel

end CommandLine

end WorkflowCompiler
