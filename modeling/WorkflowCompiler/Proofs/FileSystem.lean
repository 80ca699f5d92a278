import WorkflowCompiler.Proofs.FileTree
import WorkflowCompiler.Proofs.Path

/-!
File systems on which every change can fail. Little is assumed of them. In every state the files stand in a tree, so
there are no links; a directory is made and a file is moved as a whole or not at all. A text that is written may break
off: then its file holds any text, or is gone. So whatever must not be lost can only be moved to its place.
-/

namespace WorkflowCompiler

namespace FileTree

variable {t t' : FileTree} {p : Path} {l k : Location} {name text : String}

theorem file?_eq_some : t.file? k = some text ↔ t.entry? k = some (.file text) := by
  unfold file?
  split
  · rename_i h
    simp [h]
  · rename_i h
    constructor
    · intro hnone
      cases hnone
    · intro hfile
      exact absurd hfile (h text)

theorem file?_congr (h : t'.entry? k = t.entry? k) : t'.file? k = t.file? k := by
  rw [file?, file?, h]

theorem file?_put_of_ne {e : Entry} (hl : l ≠ []) (hk : k ≠ l) : (t.put l e).file? k = t.file? k :=
  file?_congr (by rw [entry?_put hl, if_neg hk])

theorem file?_erase_of_ne (hl : l ≠ []) (hk : k ≠ l) : (t.erase l).file? k = t.file? k :=
  file?_congr (by rw [entry?_erase hl, if_neg hk])

/-- Directories may be new; all else is as it was. -/
structure AddsDirectories (t t' : FileTree) : Prop extends Keeps t t' where
  file : ∀ k, t'.file? k = t.file? k

namespace AddsDirectories

theorem refl (t : FileTree) : AddsDirectories t t := ⟨.refl t, fun _ => rfl⟩

theorem trans {u : FileTree} (h : AddsDirectories t t') (h' : AddsDirectories t' u) :
    AddsDirectories t u :=
  ⟨h.toKeeps.trans h'.toKeeps, fun k => (h'.file k).trans (h.file k)⟩

/-- A directory that is made stands where nothing was. -/
theorem makeDirectory (h : t.makeDirectory p = .ok t') : AddsDirectories t t' := by
  obtain ⟨l, name, -, -, -, hnone, rfl⟩ := makeDirectory_eq_ok h
  refine ⟨keeps_put (by simp) (by simp [hnone]) _, ?_⟩
  intro k
  by_cases hk : k = l ++ [name]
  · rw [hk, file?, file?, hnone, entry?_put (by simp), if_pos rfl]
  · exact file?_put_of_ne (by simp) hk

end AddsDirectories

/-- The path names this location as that of a file, whether one is there or not. -/
def Spot (t : FileTree) (p : Path) (k : Location) : Prop :=
  ∃ l name, Place t p l name ∧ l ++ [name] = k

theorem Spot.unique {j : Location} (h : t.Spot p k) (h' : t.Spot p j) : k = j := by
  obtain ⟨l, name, hplace, rfl⟩ := h
  obtain ⟨l', name', hplace', rfl⟩ := h'
  obtain ⟨rfl, hname⟩ := Prod.mk.inj (Except.ok.inj (hplace.target.symm.trans hplace'.target))
  obtain rfl := Option.some.inj hname
  rfl

theorem Keeps.spot (hkeep : Keeps t t') (h : t.Spot p k) : t'.Spot p k := by
  obtain ⟨l, name, hplace, rfl⟩ := h
  exact ⟨l, name, hkeep.place hplace, rfl⟩

theorem Spot.contents (h : t.Spot p k) (hfile : t.file? k = some text) : t.contents p = .ok text := by
  obtain ⟨l, name, hplace, rfl⟩ := h
  exact hplace.contents (file?_eq_some.1 hfile)

/-- Nothing is found where nothing is. -/
theorem Spot.kind?_eq_none (h : t.Spot p k) (hnone : t.entry? k = none) : t.kind? p = none := by
  obtain ⟨l, name, hplace, rfl⟩ := h
  obtain ⟨hne, hdir, front, hfront, hwalk⟩ := target_some_eq_ok.1 hplace.target
  obtain ⟨hdot, hup⟩ : name ≠ "." ∧ name ≠ ".." := by simpa [isDots] using hplace.plain
  have hstep : t.step l name = .error .notFound := by
    simp [FileTree.step, hdir, hdot, hup, hplace.short, hnone]
  have hfull : t.walk (t.startOf p) (names p) = .error .notFound := by
    rw [hfront, FileTree.walk, List.foldlM_append]
    refine bind_eq_error.2 (.inr ⟨l, hwalk, ?_⟩)
    rw [List.foldlM_cons, hstep]
    rfl
  simp [FileTree.kind?, locate, hne, hfull, bind, Except.bind]

theorem locate_eq_ok_of_file (hfile : t.entry? k = some (.file text)) :
    t.locate p = .ok k ↔ p.text.isEmpty = false ∧ t.walk (t.startOf p) (names p) = .ok k ∧
      p.endsWithSlash = false := by
  unfold locate
  cases hempty : p.text.isEmpty with
  | true => simp [throw, throwThe, MonadExceptOf.throw, bind, Except.bind]
  | false =>
    simp only [Bool.false_eq_true, if_false, true_and]
    constructor
    · intro h
      obtain ⟨l, hwalk, h⟩ := bind_eq_ok.1 h
      split at h
      · split at h
        · cases h
        · rename_i hslash
          obtain rfl := Except.ok.inj h
          exact ⟨hwalk, by simpa using hslash⟩
      · rename_i hother
        obtain rfl := Except.ok.inj h
        exact absurd hfile (hother text)
    · rintro ⟨hwalk, hslash⟩
      refine bind_eq_ok.2 ⟨k, hwalk, ?_⟩
      simp [hfile, hslash]
      rfl

theorem contents_eq_ok : t.contents p = .ok text ↔
    ∃ k, t.locate p = .ok k ∧ t.entry? k = some (.file text) := by
  unfold FileTree.contents
  rw [bind_eq_ok]
  refine exists_congr fun k => and_congr_right fun _ => ?_
  cases t.entry? k with
  | none => exact iff_of_false nofun nofun
  | some e =>
    cases e with
    | directory => exact iff_of_false nofun nofun
    | file other =>
      rw [Option.some.injEq, Entry.file.injEq]
      exact ⟨Except.ok.inj, congrArg _⟩

/-- A file is found as before when directories stay and the file itself is left alone. -/
theorem Keeps.contents (hkeep : Keeps t t') (hlocate : t.locate p = .ok k)
    (hentry : t.entry? k = some (.file text)) (hfile : t'.file? k = t.file? k) :
    t'.contents p = .ok text := by
  obtain ⟨hne, hwalk, hslash⟩ := (locate_eq_ok_of_file hentry).1 hlocate
  have hentry' : t'.entry? k = some (.file text) :=
    file?_eq_some.1 (hfile.trans (file?_eq_some.2 hentry))
  have hstart : t'.startOf p = t.startOf p := by rw [startOf, startOf, hkeep.current]
  have hwalk' : t'.walk (t'.startOf p) (names p) = .ok k := by
    rw [hstart]
    exact hkeep.walk hwalk (by rw [hentry']; rfl)
  exact contents_eq_ok.2 ⟨k, (locate_eq_ok_of_file hentry').2 ⟨hne, hwalk', hslash⟩, hentry'⟩

theorem spot_of_write (h : t.write p text = .ok t') :
    ∃ k, t'.Spot p k ∧ t'.file? k = some text ∧ Keeps t t' ∧ ∀ j, j ≠ k → t'.file? j = t.file? j := by
  obtain ⟨l, name, hplace, hfree, rfl⟩ := write_eq_ok h
  have hkeep : Keeps t (t.put (l ++ [name]) (.file text)) := keeps_put (by simp) hfree _
  refine ⟨l ++ [name], hkeep.spot ⟨l, name, hplace, rfl⟩, ?_, hkeep, ?_⟩
  · rw [file?_eq_some, entry?_put (by simp), if_pos rfl]
  · intro j hj
    exact file?_put_of_ne (by simp) hj

/-- How a change ends that is made as a whole or not at all. -/
inductive Whole (t : FileTree) (change : Except FileError FileTree) :
    Except FileError Unit → FileTree → Prop where
  | made {t' : FileTree} (h : change = .ok t') : Whole t change (.ok ()) t'
  | failed (e : FileError) : Whole t change (.error e) t

/-- Any text at a location, or none: what is left there when the writing of a file breaks off. -/
def leave (t : FileTree) (l : Location) : Option String → FileTree
  | some text => t.put l (.file text)
  | none => t.erase l

/-- How the writing of a file ends. It can fail at once or after a part of the text. -/
inductive Writes (t : FileTree) (p : Path) (text : String) : Except FileError Unit → FileTree → Prop where
  | made {t' : FileTree} (h : t.write p text = .ok t') : Writes t p text (.ok ()) t'
  | failed (e : FileError) : Writes t p text (.error e) t
  | brokenOff {l : Location} (e : FileError) (h : t.writable p = .ok l) (left : Option String) :
      Writes t p text (.error e) (t.leave l left)

variable {change : Except FileError FileTree} {r : Except FileError Unit} {e : FileError}

theorem Whole.eq_ok (h : t.Whole change (.ok ()) t') : change = .ok t' := by
  cases h with
  | made h => exact h

theorem Whole.unchanged (h : t.Whole change (.error e) t') : t' = t := by
  cases h with
  | failed => rfl

/-- What holds of a tree and of the changed one holds in the end. -/
theorem Whole.keeps {Inv : FileTree → Prop} (h : t.Whole change r t') (ht : Inv t)
    (hmade : change = .ok t' → Inv t') : Inv t' := by
  cases h with
  | made h => exact hmade h
  | failed => exact ht

/-- A change in memory is made as a whole or not at all. -/
theorem whole_of_attempt {change : FileTree → Except FileError FileTree}
    (h : (attempt change).run t = (r, t')) : t.Whole (change t) r t' := by
  unfold attempt at h
  rw [StateT.run] at h
  split at h
  · rename_i u hchange
    obtain ⟨rfl, rfl⟩ := Prod.mk.inj h
    exact .made hchange
  · obtain ⟨rfl, rfl⟩ := Prod.mk.inj h
    exact .failed _

theorem keeps_leave (hl : l ≠ []) (hfree : t.entry? l ≠ some .directory) (left : Option String) :
    Keeps t (t.leave l left) := by
  cases left with
  | some text => exact keeps_put hl hfree _
  | none => exact keeps_erase hl hfree

theorem file?_leave (hl : l ≠ []) (left : Option String) : (t.leave l left).file? l = left := by
  cases left with
  | some text => exact file?_eq_some.2 (by rw [leave, entry?_put hl, if_pos rfl])
  | none => rw [leave, file?, entry?_erase hl, if_pos rfl]

theorem file?_leave_of_ne (hl : l ≠ []) (hk : k ≠ l) (left : Option String) :
    (t.leave l left).file? k = t.file? k := by
  cases left with
  | some text => exact file?_put_of_ne hl hk
  | none => exact file?_erase_of_ne hl hk

namespace Writes

theorem eq_ok (h : t.Writes p text (.ok ()) t') : t.write p text = .ok t' := by
  cases h with
  | made h => exact h

/-- However the writing ends, directories stay and no file changes but the one at the path. -/
theorem keeps (h : t.Writes p text r t') : Keeps t t' ∧ ∀ k, t'.file? k = t.file? k ∨ t'.Spot p k := by
  cases h with
  | made h =>
    obtain ⟨d, hspot, -, hkeep, hothers⟩ := spot_of_write h
    refine ⟨hkeep, fun k => ?_⟩
    by_cases hk : k = d
    · exact .inr (hk ▸ hspot)
    · exact .inl (hothers k hk)
  | failed => exact ⟨.refl t, fun _ => .inl rfl⟩
  | brokenOff _ h left =>
    obtain ⟨l, name, hplace, hfree, rfl⟩ := writable_eq_ok h
    have hkeep := keeps_leave (by simp) hfree left
    refine ⟨hkeep, fun k => ?_⟩
    by_cases hk : k = l ++ [name]
    · exact .inr (hkeep.spot ⟨l, name, hplace, hk.symm⟩)
    · exact .inl (file?_leave_of_ne (by simp) hk left)

end Writes

end FileTree

/-- The computation leaves all files and directories as they are. -/
def Reads {σ α : Type} (tree : σ → FileTree) (x : StateM σ α) : Prop :=
  ∀ s, tree (x.run s).2 = tree s

section

variable {σ α β : Type} {tree : σ → FileTree} {x : StateM σ α}

theorem reads_pure (a : α) : Reads tree (pure a) := fun _ => rfl

theorem Reads.bind (h : Reads tree x) {f : α → StateM σ β} (h' : ∀ a, Reads tree (f a)) :
    Reads tree (x >>= f) := by
  intro s
  rw [StateT.run_bind]
  exact (h' (x.run s).1 (x.run s).2).trans (h s)

theorem Reads.tree_eq (h : Reads tree x) {s s' : σ} {a : α} (hrun : x.run s = (a, s')) :
    tree s' = tree s := by
  rw [← h s, hrun]

end

/-- A file system. Its files stand in a tree. The laws say what is relied on: that reading changes nothing, whatever
it gives, and how each change can end. -/
structure FileSystem where
  State : Type
  tree : State → FileTree
  store : FileStore (StateM State)
  contents : ∀ p, Reads tree (store.contents p)
  kind? : ∀ p, Reads tree (store.kind? p)
  below : ∀ p, Reads tree (store.below p)
  location? : ∀ p, Reads tree (store.location? p)
  makeDirectory : ∀ {p : Path} {s s' : State} {r : Except FileError Unit},
    (store.makeDirectory p).run s = (r, s') → (tree s).Whole ((tree s).makeDirectory p) r (tree s')
  write : ∀ {p : Path} {text : String} {s s' : State} {r : Except FileError Unit},
    (store.write p text).run s = (r, s') → (tree s).Writes p text r (tree s')
  rename : ∀ {p q : Path} {s s' : State} {r : Except FileError Unit},
    (store.rename p q).run s = (r, s') → (tree s).Whole ((tree s).rename p q) r (tree s')

namespace FileSystem

/-- A tree in memory. -/
abbrev ofTree : FileSystem where
  State := FileTree
  tree := id
  store := FileTree.store
  contents := fun _ _ => rfl
  kind? := fun _ _ => rfl
  below := fun _ _ => rfl
  location? := fun _ _ => rfl
  makeDirectory := fun h => FileTree.whole_of_attempt h
  write := by
    intro p text t t' r h
    cases FileTree.whole_of_attempt h with
    | made h => exact .made h
    | failed e => exact .failed e
  rename := fun h => FileTree.whole_of_attempt h

/-- Begins to write a file, and then there is no space left. -/
def breakOff (left : Option String) (p : Path) : StateM FileTree (Except FileError Unit) := fun t =>
  match t.writable p with
  | .ok l => (.error (.other "No space left on device (os error 28)"), t.leave l left)
  | .error e => (.error e, t)

theorem writes_of_breakOff {left : Option String} {p : Path} {text : String} {t t' : FileTree}
    {r : Except FileError Unit} (h : (breakOff left p).run t = (r, t')) : t.Writes p text r t' := by
  unfold breakOff at h
  rw [StateT.run] at h
  split at h
  · rename_i l hwritable
    obtain ⟨rfl, rfl⟩ := Prod.mk.inj h
    exact .brokenOff _ hwritable left
  · obtain ⟨rfl, rfl⟩ := Prod.mk.inj h
    exact .failed _

/-- A full disk: whatever is written breaks off and leaves the same text, or none. -/
def full (left : Option String) : FileSystem :=
  { ofTree with
    store := { FileTree.store with write := fun p _ => breakOff left p }
    write := fun h => writes_of_breakOff h }

variable {F : FileSystem} {s s' : F.State} {p : Path}

theorem tree_of_pure {α : Type} {a b : α} (h : (pure a : StateM F.State α).run s = (b, s')) :
    F.tree s' = F.tree s :=
  (reads_pure a).tree_eq h

/-- Whether there is something at a path, and what, can be seen. -/
def Sees (F : FileSystem) : Prop := ∀ p s, ((F.store.kind? p).run s).1 = (F.tree s).kind? p

theorem sees_ofTree : ofTree.Sees := fun _ _ => rfl

theorem sees_full (left : Option String) : (full left).Sees := fun _ _ => rfl

theorem exists?_run {there : Bool} (h : (F.store.exists? p).run s = (there, s')) :
    F.tree s' = F.tree s ∧ (F.Sees → there = ((F.tree s).kind? p).isSome) := by
  have hreads : Reads F.tree (F.store.exists? p) := (F.kind? p).bind fun _ => reads_pure _
  refine ⟨hreads.tree_eq h, fun hsees => ?_⟩
  rw [← hsees p s]
  obtain ⟨kind, s₁, hkind, h⟩ := run_bind_eq.1 h
  rw [hkind]
  exact (Prod.mk.inj h).1.symm

theorem reads_settle (p : Path) (e : FileError) : Reads F.tree (F.store.settle p e) :=
  ((F.kind? p).bind fun _ => reads_pure _).bind fun _ => reads_pure _

/-- What every single directory keeps is kept by the making of several, whether or not all can be made. -/
theorem makeFirst_keeps {Inv : FileTree → Prop} {paths : List Path}
    (hmake : ∀ p ∈ paths, ∀ t t', Inv t → t.makeDirectory p = .ok t' → Inv t')
    {r : Except FileError Unit} (h : (F.store.makeFirst paths).run s = (r, s')) (hs : Inv (F.tree s)) :
    Inv (F.tree s') := by
  induction paths generalizing s s' r with
  | nil => rwa [tree_of_pure h]
  | cons p above ih =>
    have hfirst {made : Except FileError Unit} {s s' : F.State}
        (h : (F.store.makeDirectory p).run s = (made, s')) (hs : Inv (F.tree s)) : Inv (F.tree s') :=
      (F.makeDirectory h).keeps hs (hmake p List.mem_cons_self _ _ hs)
    rw [FileStore.makeFirst] at h
    split at h
    · rwa [tree_of_pure h]
    · obtain ⟨made, s₁, hmade, h⟩ := run_bind_eq.1 h
      have h₁ := hfirst hmade hs
      split at h
      · rwa [tree_of_pure h]
      · obtain ⟨made', s₂, hmade', h⟩ := run_bind_eq.1 h
        have h₂ := ih (fun q hq => hmake q (List.mem_cons_of_mem _ hq)) hmade' h₁
        split at h
        · rwa [tree_of_pure h]
        · obtain ⟨made'', s₃, hmade'', h⟩ := run_bind_eq.1 h
          have h₃ := hfirst hmade'' h₂
          split at h
          · rwa [tree_of_pure h]
          · rwa [(reads_settle p _).tree_eq h]
      · rwa [(reads_settle p _).tree_eq h]

/-- Whether or not all directories can be made, nothing but directories is. -/
theorem addsDirectories_of_makeFirst {paths : List Path} {r : Except FileError Unit}
    (h : (F.store.makeFirst paths).run s = (r, s')) : (F.tree s).AddsDirectories (F.tree s') := by
  have hmake : ∀ p ∈ paths, ∀ t t', (F.tree s).AddsDirectories t → t.makeDirectory p = .ok t' →
      (F.tree s).AddsDirectories t' :=
    fun _ _ _ _ hs hmade => hs.trans (.makeDirectory hmade)
  exact makeFirst_keeps hmake h (.refl _)

end FileSystem

end WorkflowCompiler
