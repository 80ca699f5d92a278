import Mathlib.Data.List.Induction
import WorkflowCompiler.Proofs.FileSystem
import WorkflowCompiler.Proofs.Patterns

/-!
Where new directories stand. A directory is made together with those that it is in, as far as they are missing, and
all of them stand on the way to it. So they take nobody else's place, as long as the way leads through what is there
or does not go up.
-/

namespace WorkflowCompiler

namespace FileTree

variable {t t' : FileTree} {p dir : Path} {l k : Location} {name other text : String}

/-- A name that a directory can hold. -/
structure Fits (name : String) : Prop extends Path.Plain name where
  notDots : isDots name = false
  short : ¬ maxName < name.utf8ByteSize

theorem startOf_join (h : Path.Plain name) (t : FileTree) (dir : Path) :
    t.startOf (dir.join ⟨name⟩) = t.startOf dir := by
  rw [startOf, startOf, h.isAbsolute_join]

/-- In a directory that is there, a name has its place. -/
theorem place_of_locate (hdir : t.locate dir = .ok l) (hl : t.entry? l = some .directory)
    (h : Fits name) : Place t (dir.join ⟨name⟩) l name where
  target := by
    rw [target_some_eq_ok, startOf_join h.toPlain]
    exact ⟨h.text_join dir, hl, names dir, names_join h.toPlain dir, walk_of_locate hdir⟩
  plain := h.notDots
  short := h.short
  noSlash := h.endsWithSlash_join dir

theorem kind?_eq_some {kind : FileKind} : t.kind? p = some kind ↔
    ∃ l e, t.locate p = .ok l ∧ t.entry? l = some e ∧ e.kind = kind := by
  unfold FileTree.kind?
  cases t.locate p with
  | error e => simp
  | ok l => simp [Option.map_eq_some_iff]

theorem Place.entry?_eq_none (h : Place t p l name) (hnone : t.kind? p = none) :
    t.entry? (l ++ [name]) = none := by
  cases he : t.entry? (l ++ [name]) with
  | none => rfl
  | some e =>
    simp only [FileTree.kind?, h.locate he, he] at hnone
    cases hnone

/-- No directory is made at a path that leads somewhere. -/
theorem not_makeDirectory_of_walk (hwalk : t.walk (t.startOf p) (names p) = .ok k) (t' : FileTree) :
    t.makeDirectory p ≠ .ok t' := by
  intro h
  obtain ⟨l, name, htarget, hplain, -, hnone, -⟩ := makeDirectory_eq_ok h
  obtain ⟨-, -, front, hfront, hbefore⟩ := target_some_eq_ok.1 htarget
  rw [hfront, walk_concat_eq_ok] at hwalk
  obtain ⟨j, hj, hstep⟩ := hwalk
  obtain rfl := Except.ok.inj (hbefore.symm.trans hj)
  obtain ⟨-, ⟨rfl, -⟩ | ⟨rfl, -⟩ | ⟨-, -, hsome, -⟩⟩ := step_eq_ok.1 hstep
  · cases hplain
  · cases hplain
  · rw [hnone] at hsome
    cases hsome

/-- The paths above a path begin where it does, and their names are some of its first names. -/
theorem front_of_ancestors {q : Path} (hq : q ∈ p.ancestors) :
    names q <+: names p ∧ q.isAbsolute = p.isAbsolute := by
  unfold Path.ancestors at hq
  generalize p.components.length = n at hq
  induction n generalizing p with
  | zero =>
    obtain rfl := List.mem_singleton.1 hq
    exact ⟨List.prefix_refl _, rfl⟩
  | succ n ih =>
    rw [Path.ancestors.go] at hq
    split at hq
    · rename_i parent hparent
      rcases List.mem_cons.1 hq with rfl | hq
      · exact ⟨List.prefix_refl _, rfl⟩
      · obtain ⟨hnames, habsolute⟩ := Path.parent?_front hparent
        obtain ⟨hnames', habsolute'⟩ := ih hq
        exact ⟨hnames'.trans hnames, habsolute'.trans habsolute⟩
    · obtain rfl := List.mem_singleton.1 hq
      exact ⟨List.prefix_refl _, rfl⟩

/-- Directories stay, and nothing changes but at one location. -/
structure ChangesAt (l : Location) (t t' : FileTree) : Prop extends Keeps t t' where
  others : ∀ k, k ≠ l → t'.entry? k = t.entry? k

theorem ChangesAt.refl (l : Location) (t : FileTree) : ChangesAt l t t := ⟨.refl t, fun _ _ => rfl⟩

/-- In a directory that is there, a new directory is the only one to be made. All others on the way are there. -/
theorem ChangesAt.makeDirectory {u : FileTree} {q : Path} (hu : ChangesAt (l ++ [name]) t u)
    (hdir : t.locate dir = .ok l) (hl : t.entry? l = some .directory) (h : Fits name)
    (hq : q ∈ (dir.join ⟨name⟩).ancestors) (hmade : u.makeDirectory q = .ok t') :
    ChangesAt (l ++ [name]) t t' := by
  obtain ⟨hfront, habsolute⟩ := front_of_ancestors hq
  have hstart : u.startOf q = t.startOf dir := by
    rw [startOf, habsolute, hu.current, ← startOf, startOf_join h.toPlain]
  rw [names_join h.toPlain, List.prefix_concat_iff] at hfront
  rcases hfront with hfull | ⟨back, hback⟩
  · refine ⟨hu.toKeeps.trans (AddsDirectories.makeDirectory hmade).toKeeps, ?_⟩
    obtain ⟨l', name', htarget, -, -, -, rfl⟩ := makeDirectory_eq_ok hmade
    obtain ⟨-, -, front, hnames, hwalk⟩ := target_some_eq_ok.1 htarget
    obtain ⟨rfl, hname⟩ := List.append_inj' (hfull.symm.trans hnames) rfl
    obtain rfl := (List.cons.inj hname).1
    rw [hstart] at hwalk
    obtain rfl := Except.ok.inj
      ((hu.walk (walk_of_locate hdir) (hu.isSome hl)).symm.trans hwalk)
    intro k hk
    rw [entry?_put (by simp), if_neg hk, hu.others k hk]
  · have hwalk := walk_of_locate hdir
    rw [← hback, walk_append_eq_ok] at hwalk
    obtain ⟨j, hj, hrest⟩ := hwalk
    have hsome := hu.isSome (directory_of_walk hrest hl)
    exact absurd hmade (not_makeDirectory_of_walk (hstart ▸ hu.walk hj hsome) t')

/-- Everything stands in a directory. -/
def Rooted (t : FileTree) : Prop :=
  ∀ l name, (t.entry? (l ++ [name])).isSome → t.entry? l = some .directory

theorem Rooted.isSome (hroot : Rooted t) (below : List String) (h : (t.entry? (l ++ below)).isSome) :
    (t.entry? l).isSome := by
  induction below using List.reverseRecOn with
  | nil => rwa [List.append_nil] at h
  | append_singleton below name ih =>
    rw [← List.append_assoc] at h
    exact ih (by rw [hroot _ _ h]; rfl)

theorem Rooted.put (hroot : Rooted t) (hl : t.entry? l = some .directory)
    (hfree : t.entry? (l ++ [name]) ≠ some .directory) (e : Entry) :
    Rooted (t.put (l ++ [name]) e) := by
  have hkeep := keeps_put (by simp) hfree e
  intro k other hsome
  by_cases hk : k ++ [other] = l ++ [name]
  · obtain ⟨rfl, -⟩ := List.append_inj' hk rfl
    exact hkeep.directory k hl
  · rw [entry?_put (by simp), if_neg hk] at hsome
    exact hkeep.directory k (hroot k other hsome)

theorem rooted_fresh (current : String) : Rooted (fresh current) := by
  have hempty : Rooted ⟨.empty, [current]⟩ := by
    intro l name hsome
    unfold entry? at hsome
    simp at hsome
  refine hempty.put (l := []) rfl ?_ .directory
  unfold entry?
  simp

/-- Where names lead that do not go up. -/
def along (l : Location) (names : List String) : Location := l ++ names.filter (· ≠ ".")

theorem along_cons (name : String) (names : List String) :
    along l (name :: names) = along (if name = "." then l else l ++ [name]) names := by
  unfold along
  by_cases hdot : name = "."
  · rw [if_pos hdot, List.filter_cons_of_neg (by simpa using hdot)]
  · rw [if_neg hdot, List.filter_cons_of_pos (by simpa using hdot), List.append_assoc,
      List.singleton_append]

theorem along_concat (hdot : name ≠ ".") (names : List String) :
    along l (names ++ [name]) = along l names ++ [name] := by
  rw [along, along, List.filter_append, List.filter_cons_of_pos (by simpa using hdot),
    List.filter_nil, List.append_assoc]

theorem along_of_step (hup : name ≠ "..") (h : t.step l name = .ok k) :
    k = if name = "." then l else l ++ [name] := by
  obtain ⟨-, ⟨hdot, hk⟩ | ⟨hback, -⟩ | ⟨hplain, -, -, hk⟩⟩ := step_eq_ok.1 h
  · rw [if_pos hdot, hk]
  · exact absurd hback hup
  · rw [if_neg, hk]
    rintro rfl
    cases hplain

theorem along_of_walk {names : List String} (hup : ".." ∉ names) (h : t.walk l names = .ok k) :
    k = along l names := by
  induction names generalizing l with
  | nil =>
    obtain rfl := Except.ok.inj h
    simp [along]
  | cons name r ih =>
    obtain ⟨hname, hr⟩ := List.ne_and_not_mem_of_not_mem_cons hup
    obtain ⟨l₁, hstep, hrest⟩ := bind_eq_ok.1 h
    rw [ih hr hrest, along_cons, along_of_step (Ne.symm hname) hstep]

theorem AddsDirectories.directory_back (h : AddsDirectories t t') (hl : (t.entry? l).isSome)
    (hl' : t'.entry? l = some .directory) : t.entry? l = some .directory := by
  obtain ⟨e, he⟩ := Option.isSome_iff_exists.1 hl
  cases e with
  | directory => exact he
  | file text =>
    have hfile := (h.file l).trans (file?_eq_some.2 he)
    rw [file?_eq_some, hl'] at hfile
    cases hfile

/-- A way that does not go up was open before, if its end was there. -/
theorem AddsDirectories.walk_back (h : AddsDirectories t t') (hroot : Rooted t) {names : List String}
    (hup : ".." ∉ names) (hwalk : t'.walk l names = .ok k) (hk : (t.entry? k).isSome) :
    t.walk l names = .ok k := by
  induction names generalizing l with
  | nil => exact hwalk
  | cons name r ih =>
    obtain ⟨hname, hr⟩ := List.ne_and_not_mem_of_not_mem_cons hup
    obtain ⟨l₁, hstep, hrest⟩ := bind_eq_ok.1 hwalk
    -- The next location is on the way to the end, so it was there, and so was the directory before it.
    have hl₁ : (t.entry? l₁).isSome := by
      rw [along_of_walk hr hrest] at hk
      exact hroot.isSome _ hk
    refine bind_eq_ok.2 ⟨l₁, ?_, ih hr hrest⟩
    obtain ⟨hl, ⟨hdot, rfl⟩ | ⟨hback, -⟩ | ⟨hplain, hshort, -, rfl⟩⟩ := step_eq_ok.1 hstep
    · exact step_eq_ok.2 ⟨h.directory_back hl₁ hl, .inl ⟨hdot, rfl⟩⟩
    · exact absurd hback.symm hname
    · exact step_eq_ok.2 ⟨hroot l name hl₁, .inr (.inr ⟨hplain, hshort, hl₁, rfl⟩)⟩

/-- New directories stand only where the paths lead. -/
structure Makes (paths : List Path) (t t' : FileTree) : Prop extends AddsDirectories t t' where
  made : ∀ k, t'.entry? k = t.entry? k ∨ ∃ p ∈ paths, k = along (t.startOf p) (names p)

namespace Makes

variable {paths : List Path}

theorem trans {u : FileTree} (h : Makes paths t t') (h' : Makes paths t' u) : Makes paths t u := by
  refine ⟨h.toAddsDirectories.trans h'.toAddsDirectories, ?_⟩
  intro k
  rcases h'.made k with hk | ⟨q, hq, hk⟩
  · rcases h.made k with hk' | hmade
    · exact .inl (hk.trans hk')
    · exact .inr hmade
  · rw [startOf, h.current, ← startOf] at hk
    exact .inr ⟨q, hq, hk⟩

theorem makeDirectory {u : FileTree} (h : Makes paths t t') (hp : p ∈ paths) (hup : ".." ∉ names p)
    (hmade : t'.makeDirectory p = .ok u) : Makes paths t u := by
  refine h.trans ⟨.makeDirectory hmade, ?_⟩
  obtain ⟨l, name, htarget, hplain, -, -, rfl⟩ := makeDirectory_eq_ok hmade
  obtain ⟨-, -, front, hfront, hwalk⟩ := target_some_eq_ok.1 htarget
  have hdot : name ≠ "." := by
    rintro rfl
    cases hplain
  intro k
  by_cases hk : k = l ++ [name]
  · refine .inr ⟨p, hp, ?_⟩
    rw [hk, hfront, along_concat hdot, ← along_of_walk (fun hmem => hup ?_) hwalk]
    rw [hfront]
    exact List.mem_append_left _ hmem
  · exact .inl (by rw [entry?_put (by simp), if_neg hk])

end Makes

theorem kind?_of_walk {e : Entry} (hne : p.text.isEmpty = false) (hslash : p.endsWithSlash = false)
    (hwalk : t.walk (t.startOf p) (names p) = .ok k) (he : t.entry? k = some e) :
    t.kind? p = some e.kind := by
  refine kind?_eq_some.2 ⟨k, e, ?_, he, rfl⟩
  unfold locate
  simp only [hne, hwalk, bind, Except.bind, he, hslash, Bool.false_eq_true, if_false]
  cases e <;> rfl

theorem Fits.straight (h : Fits name) (hup : ".." ∉ names dir) : ".." ∉ names (dir.join ⟨name⟩) := by
  rw [names_join h.toPlain]
  intro hmem
  rcases List.mem_append.1 hmem with hmem | hmem
  · exact hup hmem
  · obtain rfl := List.mem_singleton.1 hmem
    cases h.notDots

theorem Fits.ne_dot (h : Fits name) : name ≠ "." := by
  rintro rfl
  cases h.notDots

/-- What is made on the way to one name is never at another name. -/
theorem Makes.entry?_other (h : Fits name) (hother : Fits other) (hne : name ≠ other)
    (hmakes : Makes (dir.join ⟨name⟩).ancestors t t')
    (hk : k = along (t.startOf (dir.join ⟨other⟩)) (names (dir.join ⟨other⟩))) :
    t'.entry? k = t.entry? k := by
  rcases hmakes.made k with hsame | ⟨q, hq, hmade⟩
  · exact hsame
  · obtain ⟨hfront, habsolute⟩ := front_of_ancestors hq
    rw [startOf_join hother.toPlain, names_join hother.toPlain, along_concat hother.ne_dot] at hk
    rw [startOf, habsolute, ← startOf, startOf_join h.toPlain] at hmade
    rw [names_join h.toPlain, List.prefix_concat_iff] at hfront
    rcases hfront with hfull | hfront
    · rw [hfull, along_concat h.ne_dot] at hmade
      obtain ⟨-, hlast⟩ := List.append_inj' (hk.symm.trans hmade) rfl
      exact absurd (List.cons.inj hlast).1.symm hne
    · have hlength : (along (t.startOf dir) (names q)).length ≤
          (along (t.startOf dir) (names dir)).length :=
        ((List.prefix_append_right_inj _).2 (hfront.filter _)).length_le
      rw [← hmade, hk, List.length_append, List.length_singleton] at hlength
      omega

end FileTree

namespace FileSystem

open FileTree

variable {F : FileSystem} {s s' : F.State} {dir : Path} {name other : String} {r : Except FileError Unit}

/-- In a directory that is there, a new directory stands in nobody else's place. -/
theorem kind?_of_there (hdir : (F.tree s).kind? dir = some .directory) (h : Fits name)
    (hother : Fits other) (hne : name ≠ other)
    (hrun : (F.store.makeDirectories (dir.join ⟨name⟩)).run s = (r, s'))
    (hnone : (F.tree s).kind? (dir.join ⟨other⟩) = none) :
    (F.tree s').kind? (dir.join ⟨other⟩) = none := by
  obtain ⟨l, e, hlocate, hl, he⟩ := kind?_eq_some.1 hdir
  obtain rfl : e = .directory := by
    cases e with
    | directory => rfl
    | file text => cases he
  have hmake : ∀ q ∈ (dir.join ⟨name⟩).ancestors, ∀ t t', ChangesAt (l ++ [name]) (F.tree s) t →
      t.makeDirectory q = .ok t' → ChangesAt (l ++ [name]) (F.tree s) t' :=
    fun _ hq _ _ ht hmade => ht.makeDirectory hlocate hl h hq hmade
  have hchanges := makeFirst_keeps hmake hrun (.refl _ _)
  have hplace := place_of_locate hlocate hl hother
  refine Spot.kind?_eq_none ⟨l, other, hchanges.place hplace, rfl⟩ ?_
  rw [hchanges.others _ (by simpa using hne.symm), hplace.entry?_eq_none hnone]

theorem makes_of_makeFirst {paths : List Path} (hup : ∀ p ∈ paths, ".." ∉ names p)
    (h : (F.store.makeFirst paths).run s = (r, s')) : Makes paths (F.tree s) (F.tree s') := by
  have hmake : ∀ p ∈ paths, ∀ t t', Makes paths (F.tree s) t → t.makeDirectory p = .ok t' →
      Makes paths (F.tree s) t' :=
    fun p hp _ _ ht hmade => ht.makeDirectory hp (hup p hp) hmade
  exact makeFirst_keeps hmake h ⟨.refl _, fun _ => .inl rfl⟩

/-- Without a step up, a new directory and those that it is in stand in nobody else's place. -/
theorem kind?_of_straight (hroot : (F.tree s).Rooted) (hup : ".." ∉ names dir) (h : Fits name)
    (hother : Fits other) (hne : name ≠ other)
    (hrun : (F.store.makeDirectories (dir.join ⟨name⟩)).run s = (r, s'))
    (hnone : (F.tree s).kind? (dir.join ⟨other⟩) = none) :
    (F.tree s').kind? (dir.join ⟨other⟩) = none := by
  have hmakes : Makes (dir.join ⟨name⟩).ancestors (F.tree s) (F.tree s') :=
    makes_of_makeFirst (fun q hq hmem => h.straight hup ((front_of_ancestors hq).1.subset hmem)) hrun
  cases hkind : (F.tree s').kind? (dir.join ⟨other⟩) with
  | none => rfl
  | some kind =>
    obtain ⟨k, e, hlocate, he, -⟩ := kind?_eq_some.1 hkind
    have hwalk := walk_of_locate hlocate
    rw [startOf, hmakes.current, ← startOf] at hwalk
    -- What is found now was there before, and so was the way to it.
    have hsame := hmakes.entry?_other h hother hne (along_of_walk (hother.straight hup) hwalk)
    have hwalk' := hmakes.walk_back hroot (hother.straight hup) hwalk (by rw [← hsame, he]; rfl)
    have hthere := kind?_of_walk (hother.text_join dir) (hother.endsWithSlash_join dir) hwalk'
      (hsame.symm.trans he)
    cases hnone.symm.trans hthere

end FileSystem

end WorkflowCompiler
