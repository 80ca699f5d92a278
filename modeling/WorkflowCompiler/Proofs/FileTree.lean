import WorkflowCompiler.FileTree
import WorkflowCompiler.Proofs.Basic

/-!
What changes of a tree of files do. A file that is written or moved never takes the place of a directory, so paths go
on leading to the same directories, and the text is afterwards found by the path under which it was put.
-/

namespace WorkflowCompiler.FileTree

variable {t t' : FileTree} {p q : Path} {l : Location} {name text : String}

theorem entry?_put {e : Entry} (hl : l ≠ []) (k : Location) :
    entry? (t.put l e) k = if k = l then some e else t.entry? k := by
  unfold entry? put
  rw [SortedMap.get?_insert]
  by_cases hk : k = l
  · simp [hk, hl]
  · simp [hk]

theorem entry?_erase (hl : l ≠ []) (k : Location) :
    entry? (t.erase l) k = if k = l then none else t.entry? k := by
  have hget : (t.erase l).entries.get? k = if k = l then none else t.entries.get? k :=
    lookup_filter_ne l t.entries.entries k
  unfold entry?
  rw [hget]
  by_cases hk : k = l
  · simp [hk, hl]
  · simp [hk]

/-- Directories stay, and relative paths start where they did. -/
structure Keeps (t t' : FileTree) : Prop where
  current : t'.current = t.current
  directory : ∀ l, t.entry? l = some .directory → t'.entry? l = some .directory

theorem Keeps.refl (t : FileTree) : Keeps t t := ⟨rfl, fun _ h => h⟩

theorem Keeps.trans {u : FileTree} (h : Keeps t t') (h' : Keeps t' u) : Keeps t u :=
  ⟨h'.current.trans h.current, fun l hl => h'.directory l (h.directory l hl)⟩

/-- One name further: nowhere for a dot, up for two, and else to something that is there. -/
theorem step_eq_ok {k : Location} :
    t.step l name = .ok k ↔ t.entry? l = some .directory ∧
      ((name = "." ∧ l = k) ∨ (name = ".." ∧ l.dropLast = k) ∨
        (isDots name = false ∧ ¬ maxName < name.utf8ByteSize ∧
          (t.entry? (l ++ [name])).isSome ∧ l ++ [name] = k)) := by
  unfold step
  cases he : t.entry? l with
  | none => simp
  | some e =>
    cases e with
    | file text => simp
    | directory =>
      by_cases hdot : name = "."
      · simp [hdot, isDots]
      · by_cases hup : name = ".."
        · simp [hup, isDots]
        · by_cases hlong : maxName < name.utf8ByteSize
          · simp [hdot, hup, hlong, isDots]
          · by_cases hsome : (t.entry? (l ++ [name])).isSome
            · simp [hdot, hup, hlong, hsome, isDots]
            · simp [hdot, hup, hlong, hsome, isDots]

theorem directory_of_walk {names : List String} {k : Location} (h : t.walk l names = .ok k)
    (hk : t.entry? k = some .directory) : t.entry? l = some .directory := by
  cases names with
  | nil =>
    obtain rfl := Except.ok.inj h
    exact hk
  | cons name r =>
    obtain ⟨_, hstep, -⟩ := bind_eq_ok.1 h
    exact (step_eq_ok.1 hstep).1

theorem walk_append_eq_ok {front back : List String} {k : Location} :
    t.walk l (front ++ back) = .ok k ↔ ∃ j, t.walk l front = .ok j ∧ t.walk j back = .ok k := by
  rw [walk, List.foldlM_append, bind_eq_ok]
  rfl

theorem walk_concat_eq_ok {front : List String} {k : Location} :
    t.walk l (front ++ [name]) = .ok k ↔ ∃ j, t.walk l front = .ok j ∧ t.step j name = .ok k := by
  rw [walk_append_eq_ok]
  refine exists_congr fun j => and_congr_right fun _ => ?_
  rw [walk, List.foldlM_cons]
  exact Iff.of_eq (congrArg (· = _) (bind_pure _))

theorem Keeps.isSome (hkeep : Keeps t t') (hl : t.entry? l = some .directory) : (t'.entry? l).isSome := by
  rw [hkeep.directory l hl]
  rfl

theorem Keeps.step (hkeep : Keeps t t') {k : Location} (h : t.step l name = .ok k)
    (hk : (t'.entry? k).isSome) : t'.step l name = .ok k := by
  obtain ⟨hl, hcase⟩ := step_eq_ok.1 h
  refine step_eq_ok.2 ⟨hkeep.directory l hl, ?_⟩
  rcases hcase with hdot | hup | ⟨hplain, hshort, -, rfl⟩
  · exact .inl hdot
  · exact .inr (.inl hup)
  · exact .inr (.inr ⟨hplain, hshort, hk, rfl⟩)

/-- A walk goes through directories up to its end, so it can be repeated if its end is still there. -/
theorem Keeps.walk (hkeep : Keeps t t') {names : List String} {k : Location}
    (h : t.walk l names = .ok k) (hk : (t'.entry? k).isSome) : t'.walk l names = .ok k := by
  induction names generalizing l with
  | nil => exact h
  | cons name r ih =>
    obtain ⟨l₁, hstep, hrest⟩ := bind_eq_ok.1 h
    refine bind_eq_ok.2 ⟨l₁, hkeep.step hstep ?_, ih hrest⟩
    cases r with
    | nil =>
      obtain rfl := Except.ok.inj hrest
      exact hk
    | cons _ _ =>
      obtain ⟨_, hnext, -⟩ := bind_eq_ok.1 hrest
      exact hkeep.isSome (step_eq_ok.1 hnext).1

theorem target_eq_ok {last : Option String} :
    t.target p = .ok (l, last) ↔ p.text.isEmpty = false ∧
      t.walk (t.startOf p) (names p).dropLast = .ok l ∧ t.entry? l = some .directory ∧
      (names p).getLast? = last := by
  unfold target
  cases hempty : p.text.isEmpty with
  | true => simp [throw, throwThe, MonadExceptOf.throw, bind, Except.bind]
  | false =>
    simp only [Bool.false_eq_true, if_false, true_and]
    cases hwalk : t.walk (t.startOf p) (names p).dropLast with
    | error e => simp [bind, Except.bind]
    | ok k =>
      simp only [bind, Except.bind, Except.ok.injEq]
      constructor
      · intro h
        split at h
        · rename_i hdir
          obtain ⟨rfl, rfl⟩ := Prod.mk.inj (Except.ok.inj h)
          exact ⟨rfl, hdir, rfl⟩
        · cases h
        · cases h
      · rintro ⟨rfl, hdir, rfl⟩
        rw [hdir]
        rfl

/-- The last name of a path, and the walk along all others to the directory that is to hold it. -/
theorem target_some_eq_ok : t.target p = .ok (l, some name) ↔ p.text.isEmpty = false ∧
    t.entry? l = some .directory ∧ ∃ front, names p = front ++ [name] ∧ t.walk (t.startOf p) front = .ok l := by
  rw [target_eq_ok]
  constructor
  · rintro ⟨hne, hwalk, hdir, hlast⟩
    obtain ⟨front, hfront⟩ := List.getLast?_eq_some_iff.1 hlast
    rw [hfront, List.dropLast_concat] at hwalk
    exact ⟨hne, hdir, front, hfront, hwalk⟩
  · rintro ⟨hne, hdir, front, hfront, hwalk⟩
    rw [hfront, List.dropLast_concat, List.getLast?_concat]
    exact ⟨hne, hwalk, hdir, rfl⟩

theorem Keeps.target (hkeep : Keeps t t') {last : Option String} (h : t.target p = .ok (l, last)) :
    t'.target p = .ok (l, last) := by
  rw [target_eq_ok] at h ⊢
  obtain ⟨hne, hwalk, hdir, hlast⟩ := h
  have hstart : t'.startOf p = t.startOf p := by rw [startOf, startOf, hkeep.current]
  exact ⟨hne, hstart ▸ hkeep.walk hwalk (hkeep.isSome hdir), hkeep.directory l hdir, hlast⟩

/-- The path leads to a place for a file: a directory and a name in it. -/
structure Place (t : FileTree) (p : Path) (l : Location) (name : String) : Prop where
  target : t.target p = .ok (l, some name)
  plain : isDots name = false
  short : ¬ maxName < name.utf8ByteSize
  noSlash : p.endsWithSlash = false

theorem Keeps.place (hkeep : Keeps t t') (h : Place t p l name) : Place t' p l name :=
  { h with target := hkeep.target h.target }

/-- What stands at the place is what the path leads to. -/
theorem Place.locate (h : Place t p l name) {e : Entry} (he : t.entry? (l ++ [name]) = some e) :
    t.locate p = .ok (l ++ [name]) := by
  obtain ⟨hne, hdir, front, hfront, hwalk⟩ := target_some_eq_ok.1 h.target
  have hstep : t.step l name = .ok (l ++ [name]) :=
    step_eq_ok.2 ⟨hdir, .inr (.inr ⟨h.plain, h.short, by simp [he], rfl⟩)⟩
  have hfull : t.walk (t.startOf p) (names p) = .ok (l ++ [name]) := by
    rw [hfront]
    exact walk_concat_eq_ok.2 ⟨l, hwalk, hstep⟩
  unfold FileTree.locate
  simp only [hne, hfull, bind, Except.bind, Bool.false_eq_true, if_false, he]
  cases e with
  | directory => rfl
  | file text =>
    rw [h.noSlash]
    rfl

theorem Place.contents (h : Place t p l name) (he : t.entry? (l ++ [name]) = some (.file text)) :
    t.contents p = .ok text := by
  unfold FileTree.contents
  rw [h.locate he]
  simp only [bind, Except.bind, he]
  rfl

theorem Place.kind? (h : Place t p l name) (he : t.entry? (l ++ [name]) = some (.file text)) :
    t.kind? p = some .file := by
  simp only [FileTree.kind?, h.locate he, he]
  rfl

theorem child_eq_ok {k : Location} :
    child l name = .ok k ↔ ¬ maxName < name.utf8ByteSize ∧ l ++ [name] = k := by
  unfold child
  split
  · rename_i hlong
    simp [hlong]
  · rename_i hlong
    simp [hlong]

/-- A file can be written where no directory is. -/
theorem writable_eq_ok {k : Location} (h : t.writable p = .ok k) :
    ∃ l name, Place t p l name ∧ t.entry? k ≠ some .directory ∧ l ++ [name] = k := by
  obtain ⟨⟨l, last⟩, htarget, h⟩ := bind_eq_ok.1 h
  cases last with
  | none => cases h
  | some name =>
    dsimp only at h
    split at h
    · cases h
    · rename_i hname
      obtain ⟨hslash, hplain⟩ := not_or.1 hname
      obtain ⟨_, hchild, h⟩ := bind_eq_ok.1 h
      obtain ⟨hshort, rfl⟩ := child_eq_ok.1 hchild
      refine ⟨l, name, ⟨htarget, by simpa using hplain, hshort, by simpa using hslash⟩, ?_⟩
      split at h
      · cases h
      · rename_i hfree
        obtain rfl := Except.ok.inj h
        exact ⟨hfree, rfl⟩

theorem write_eq_ok (h : t.write p text = .ok t') :
    ∃ l name, Place t p l name ∧ t.entry? (l ++ [name]) ≠ some .directory ∧
      t' = t.put (l ++ [name]) (.file text) := by
  obtain ⟨k, hwritable, h⟩ := bind_eq_ok.1 h
  obtain ⟨l, name, hplace, hfree, rfl⟩ := writable_eq_ok hwritable
  exact ⟨l, name, hplace, hfree, (Except.ok.inj h).symm⟩

/-- A directory can be made where nothing is. -/
theorem makeDirectory_eq_ok (h : t.makeDirectory p = .ok t') :
    ∃ l name, t.target p = .ok (l, some name) ∧ isDots name = false ∧ ¬ maxName < name.utf8ByteSize ∧
      t.entry? (l ++ [name]) = none ∧ t' = t.put (l ++ [name]) .directory := by
  obtain ⟨⟨l, last⟩, htarget, h⟩ := bind_eq_ok.1 h
  cases last with
  | none => cases h
  | some name =>
    dsimp only at h
    split at h
    · cases h
    · rename_i hplain
      obtain ⟨_, hchild, h⟩ := bind_eq_ok.1 h
      obtain ⟨hshort, rfl⟩ := child_eq_ok.1 hchild
      split at h
      · cases h
      · rename_i hfree
        exact ⟨l, name, htarget, by simpa using hplain, hshort, by simpa using hfree, (Except.ok.inj h).symm⟩

theorem rename_eq_ok (h : t.rename p q = .ok t') :
    ∃ l name k other text, Place t p l name ∧ Place t q k other ∧
      t.entry? (l ++ [name]) = some (.file text) ∧ t.entry? (k ++ [other]) ≠ some .directory ∧
      t' = (t.erase (l ++ [name])).put (k ++ [other]) (.file text) := by
  obtain ⟨⟨l, last⟩, hp, h⟩ := bind_eq_ok.1 h
  obtain ⟨⟨k, last'⟩, hq, h⟩ := bind_eq_ok.1 h
  cases last with
  | none => cases h
  | some name =>
    cases last' with
    | none => cases h
    | some other =>
      dsimp only at h
      split at h
      · cases h
      · rename_i hname
        obtain ⟨hplain, hplain'⟩ := not_or.1 hname
        obtain ⟨_, hchild, h⟩ := bind_eq_ok.1 h
        obtain ⟨hshort, rfl⟩ := child_eq_ok.1 hchild
        obtain ⟨_, hchild', h⟩ := bind_eq_ok.1 h
        obtain ⟨hshort', rfl⟩ := child_eq_ok.1 hchild'
        split at h
        · cases h
        · cases h
        · rename_i text hfile
          split at h
          · cases h
          · rename_i hslash
            obtain ⟨hslash, hslash'⟩ := not_or.1 hslash
            split at h
            · cases h
            · rename_i hfree
              exact ⟨l, name, k, other, text,
                ⟨hp, by simpa using hplain, hshort, by simpa using hslash⟩,
                ⟨hq, by simpa using hplain', hshort', by simpa using hslash'⟩,
                hfile, hfree, (Except.ok.inj h).symm⟩

theorem keeps_put (hl : l ≠ []) (hfree : t.entry? l ≠ some .directory) (e : Entry) :
    Keeps t (t.put l e) := by
  refine ⟨rfl, ?_⟩
  intro k hk
  rw [entry?_put hl, if_neg, hk]
  rintro rfl
  exact hfree hk

theorem keeps_erase (hl : l ≠ []) (hfree : t.entry? l ≠ some .directory) : Keeps t (t.erase l) := by
  refine ⟨rfl, ?_⟩
  intro k hk
  rw [entry?_erase hl, if_neg, hk]
  rintro rfl
  exact hfree hk

/-- A file leaves one location and is put at another one. -/
theorem keeps_move {k : Location} (hl : l ≠ []) (hk : k ≠ [])
    (hfree : t.entry? l ≠ some .directory) (hfree' : t.entry? k ≠ some .directory) (e : Entry) :
    Keeps t ((t.erase l).put k e) := by
  refine (keeps_erase hl hfree).trans (keeps_put hk ?_ e)
  rw [entry?_erase hl]
  split
  · simp
  · exact hfree'

/-- A text that is written to one path and moved to another is found at the other. -/
theorem place_of_write_rename {t₁ t₂ : FileTree} (hwrite : t.write p text = .ok t₁)
    (hrename : t₁.rename p q = .ok t₂) :
    ∃ l name, Place t₂ q l name ∧ t₂.entry? (l ++ [name]) = some (.file text) := by
  obtain ⟨l, name, hp, hfree, rfl⟩ := write_eq_ok hwrite
  obtain ⟨l', name', k, other, text', hp', hq, hfile, hfree', rfl⟩ := rename_eq_ok hrename
  -- The path still leads to the place where the text was put, so this is the text that moves.
  have hplace := (keeps_put (by simp) hfree (.file text)).target hp.target
  obtain ⟨rfl, hname⟩ := Prod.mk.inj (Except.ok.inj (hplace.symm.trans hp'.target))
  obtain rfl := Option.some.inj hname
  rw [entry?_put (by simp), if_pos rfl, Option.some.injEq, Entry.file.injEq] at hfile
  subst hfile
  have hfile : entry? (t.put (l ++ [name]) (.file text)) (l ++ [name]) ≠ some .directory := by
    rw [entry?_put (by simp), if_pos rfl]
    simp
  refine ⟨k, other, (keeps_move (by simp) (by simp) hfile hfree' _).place hq, ?_⟩
  rw [entry?_put (by simp), if_pos rfl]

end WorkflowCompiler.FileTree
