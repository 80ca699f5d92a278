import WorkflowCompiler.OrderedMap

/-!
Facts that all parts of the theory use. A computation that can fail succeeds when all its parts do, and
fails with the first error. In the two kinds of finite maps an insertion changes the answer for its own
key and for no other, and the entries of a map are exactly its answers.
-/

namespace WorkflowCompiler

universe u v w

section Failure

variable {ε α β : Type u}

theorem bind_eq_ok {x : Except ε α} {f : α → Except ε β} {b : β} :
    x >>= f = .ok b ↔ ∃ a, x = .ok a ∧ f a = .ok b := by
  cases x with
  | error e => simp [bind, Except.bind]
  | ok a => simp [bind, Except.bind]

theorem bind_eq_error {x : Except ε α} {f : α → Except ε β} {e : ε} :
    x >>= f = .error e ↔ x = .error e ∨ ∃ a, x = .ok a ∧ f a = .error e := by
  cases x with
  | error e' => simp [bind, Except.bind]
  | ok a => simp [bind, Except.bind]

theorem mapM_eq_ok {f : α → Except ε β} {as : List α} {bs : List β} :
    as.mapM f = .ok bs ↔ as.map f = bs.map .ok := by
  induction as generalizing bs with
  | nil => cases bs <;> simp [pure, Except.pure]
  | cons a r ih =>
    rw [List.mapM_cons, bind_eq_ok]
    simp only [bind_eq_ok, ih, pure, Except.pure, Except.ok.injEq]
    constructor
    · rintro ⟨b, hb, bs', hbs', rfl⟩
      simp [hb, hbs']
    · intro h
      cases bs with
      | nil => simp at h
      | cons b bs' =>
        rw [List.map_cons, List.map_cons, List.cons.injEq] at h
        exact ⟨b, h.1, bs', h.2, rfl⟩

/-- The error is that of the first element that fails. -/
theorem mapM_eq_error {f : α → Except ε β} {as : List α} {e : ε} :
    as.mapM f = .error e ↔ ∃ front a back, as = front ++ a :: back ∧
      (∀ x ∈ front, ∃ b, f x = .ok b) ∧ f a = .error e := by
  induction as with
  | nil => simp [pure, Except.pure]
  | cons a r ih =>
    rw [List.mapM_cons, bind_eq_error]
    constructor
    · rintro (h | ⟨b, hb, h⟩)
      · exact ⟨[], a, r, rfl, by simp, h⟩
      · rcases bind_eq_error.1 h with h | ⟨bs, -, h⟩
        · obtain ⟨front, x, back, rfl, hfront, hx⟩ := ih.1 h
          have hall : ∀ y ∈ a :: front, ∃ b, f y = .ok b :=
            List.forall_mem_cons.2 ⟨⟨b, hb⟩, hfront⟩
          exact ⟨a :: front, x, back, rfl, hall, hx⟩
        · simp [pure, Except.pure] at h
    · rintro ⟨front, x, back, heq, hfront, hx⟩
      cases front with
      | nil =>
        obtain ⟨rfl, rfl⟩ := List.cons.inj heq
        exact .inl hx
      | cons y front =>
        obtain ⟨rfl, rfl⟩ := List.cons.inj heq
        obtain ⟨b, hb⟩ := hfront a (by simp)
        refine .inr ⟨b, hb, bind_eq_error.2 (.inl (ih.2 ⟨front, x, back, rfl, ?_, hx⟩))⟩
        intro z hz
        exact hfront z (by simp [hz])

theorem exists_mapM {f : α → Except ε β} {as : List α} (h : ∀ a ∈ as, ∃ b, f a = .ok b) :
    ∃ bs, as.mapM f = .ok bs := by
  cases hm : as.mapM f with
  | ok bs => exact ⟨bs, rfl⟩
  | error e =>
    obtain ⟨front, a, back, rfl, -, ha⟩ := mapM_eq_error.1 hm
    obtain ⟨b, hb⟩ := h a (by simp)
    cases ha.symm.trans hb

theorem mapError_eq_ok {f : ε → β} {x : Except ε α} {a : α} :
    x.mapError f = .ok a ↔ x = .ok a := by
  cases x with
  | error e => exact ⟨nofun, nofun⟩
  | ok b =>
    change (Except.ok b : Except β α) = .ok a ↔ _
    rw [Except.ok.injEq, Except.ok.injEq]

end Failure

/-- A computation on states goes on with the state that its first part leaves. -/
theorem run_bind_eq {σ α β : Type} {x : StateM σ α} {f : α → StateM σ β} {s s' : σ} {b : β} :
    (x >>= f).run s = (b, s') ↔ ∃ a s₁, x.run s = (a, s₁) ∧ (f a).run s₁ = (b, s') := by
  constructor
  · intro h
    exact ⟨(x.run s).1, (x.run s).2, rfl, h⟩
  · rintro ⟨a, s₁, hx, hf⟩
    rw [StateT.run_bind, hx]
    exact hf

variable {κ : Type u} {α : Type v} [DecidableEq κ]

theorem lookup_cons_if (k : κ) (e : κ × α) (es : List (κ × α)) :
    (e :: es).lookup k = if k = e.1 then some e.2 else es.lookup k := by
  rw [List.lookup_cons]
  by_cases h : k = e.1
  · simp [h]
  · have hb : (k == e.1) = false := by simpa using h
    simp only [hb, h, if_false]

theorem mem_of_lookup {k : κ} {a : α} {es : List (κ × α)} (h : es.lookup k = some a) :
    (k, a) ∈ es := by
  obtain ⟨front, back, rfl, -⟩ := List.lookup_eq_some_iff.1 h
  simp

/-- With distinct keys every entry is found. -/
theorem lookup_iff_mem {es : List (κ × α)} (hes : (es.map Prod.fst).Nodup) (k : κ) (a : α) :
    es.lookup k = some a ↔ (k, a) ∈ es := by
  refine ⟨mem_of_lookup, ?_⟩
  induction es with
  | nil => simp
  | cons e r ih =>
    rw [List.map_cons, List.nodup_cons] at hes
    intro h
    rw [lookup_cons_if]
    rcases List.mem_cons.1 h with rfl | h
    · simp
    · have hne : k ≠ e.1 := by
        rintro rfl
        exact hes.1 (List.mem_map.2 ⟨_, h, rfl⟩)
      rw [if_neg hne]
      exact ih hes.2 h

theorem lookup_putEntry (k : κ) (a : α) (es : List (κ × α)) (k' : κ) :
    (putEntry k a es).lookup k' = if k' = k then some a else es.lookup k' := by
  induction es with
  | nil => simp [putEntry, lookup_cons_if]
  | cons e r ih =>
    simp only [putEntry]
    by_cases h : e.1 = k
    · simp only [h, if_true, lookup_cons_if]
      split <;> rfl
    · simp only [h, if_false, lookup_cons_if, ih]
      by_cases hk : k' = e.1
      · simp [hk, h]
      · simp [hk]

theorem lookup_filter_ne (k : κ) (es : List (κ × α)) (k' : κ) :
    (es.filter fun e => e.1 ≠ k).lookup k' = if k' = k then none else es.lookup k' := by
  induction es with
  | nil => simp
  | cons e r ih =>
    by_cases he : e.1 = k
    · rw [List.filter_cons_of_neg (by simpa using he), ih, lookup_cons_if, he]
      split <;> rfl
    · rw [List.filter_cons_of_pos (by simpa using he), lookup_cons_if, lookup_cons_if, ih]
      by_cases hk : k' = e.1
      · simp [hk, he]
      · simp [hk]

/-- A key that is not yet there goes to the end. -/
theorem putEntry_new {k : κ} {es : List (κ × α)} (a : α) (h : k ∉ es.map Prod.fst) :
    putEntry k a es = es ++ [(k, a)] := by
  induction es with
  | nil => rfl
  | cons e r ih =>
    simp only [List.map_cons, List.mem_cons, not_or] at h
    have hne : ¬ e.1 = k := fun he => h.1 he.symm
    simp only [putEntry, hne, if_false, ih h.2, List.cons_append]

/-- Entries with distinct keys are put down in order. -/
theorem foldl_putEntry {β : Type w} {f : β → κ} {g : β → α} {xs : List β}
    (h : (xs.map f).Nodup) :
    xs.foldl (fun es x => putEntry (f x) (g x) es) [] = xs.map fun x => (f x, g x) := by
  have hstep (es : List (κ × α)) (hes : (es.map Prod.fst ++ xs.map f).Nodup) :
      xs.foldl (fun es x => putEntry (f x) (g x) es) es = es ++ xs.map fun x => (f x, g x) := by
    clear h
    induction xs generalizing es with
    | nil => simp
    | cons x r ih =>
      have hnew : f x ∉ es.map Prod.fst := by
        intro hmem
        exact (List.nodup_append.1 hes).2.2 (f x) hmem (f x) (by simp) rfl
      rw [List.foldl_cons, putEntry_new _ hnew, ih]
      · simp
      · simpa using hes
  exact hstep [] (by simpa using h)

namespace OrderedMap

@[simp] theorem get?_empty (k : κ) : (empty : OrderedMap κ α).get? k = none := rfl

@[simp] theorem get?_insert (m : OrderedMap κ α) (k : κ) (a : α) (k' : κ) :
    (m.insert k a).get? k' = if k' = k then some a else m.get? k' :=
  lookup_putEntry k a m.entries k'

theorem get?_iff_mem (m : OrderedMap κ α) (k : κ) (a : α) :
    m.get? k = some a ↔ (k, a) ∈ m.entries :=
  lookup_iff_mem m.distinct k a

theorem contains_iff {m : OrderedMap κ α} {key : κ} : m.contains key = true ↔ key ∈ m.keys := by
  rw [contains, Option.isSome_iff_exists, keys, List.mem_map]
  constructor
  · rintro ⟨a, ha⟩
    exact ⟨(key, a), (m.get?_iff_mem key a).1 ha, rfl⟩
  · rintro ⟨e, he, rfl⟩
    exact ⟨e.2, (m.get?_iff_mem e.1 e.2).2 he⟩

theorem keys_insert (m : OrderedMap κ α) (key : κ) (a : α) :
    (m.insert key a).keys = if key ∈ m.keys then m.keys else m.keys ++ [key] :=
  keys_putEntry key a m.entries

/-- Entries with distinct keys are stored as they come. -/
theorem entries_ofList {es : List (κ × α)} (h : (es.map Prod.fst).Nodup) :
    (ofList es).entries = es := by
  have hfold (m : OrderedMap κ α) : (es.foldl (fun m e => m.insert e.1 e.2) m).entries =
      es.foldl (fun r e => putEntry e.1 e.2 r) m.entries := by
    clear h
    induction es generalizing m with
    | nil => rfl
    | cons e r ih => exact ih (m.insert e.1 e.2)
  rw [ofList, hfold]
  exact (foldl_putEntry (f := Prod.fst) (g := Prod.snd) h).trans (List.map_id es)

end OrderedMap

section Sorted

variable [LT κ]

omit [DecidableEq κ] in
theorem nodup_keys_of_increasing [Std.Irrefl (fun x y : κ => x < y)] {es : List (κ × α)}
    (h : es.Pairwise fun d e => d.1 < e.1) : (es.map Prod.fst).Nodup := by
  rw [List.Nodup, List.pairwise_map]
  refine h.imp ?_
  intro d e hlt heq
  rw [heq] at hlt
  exact Std.Irrefl.irrefl (r := fun x y : κ => x < y) _ hlt

omit [DecidableEq κ] in
/-- Members that are put in the order of a key stand in one order only. -/
theorem eq_of_increasing [Std.Asymm (fun x y : κ => x < y)] {f : α → κ} {xs ys : List α}
    (hxs : xs.Pairwise fun a b => f a < f b) (hys : ys.Pairwise fun a b => f a < f b)
    (h : ∀ a, a ∈ xs ↔ a ∈ ys) : xs = ys := by
  have hasymm (a b : α) (hab : f a < f b) : ¬ f b < f a :=
    Std.Asymm.asymm (r := fun x y : κ => x < y) _ _ hab
  have hnodup {zs : List α} (hzs : zs.Pairwise fun a b => f a < f b) : zs.Nodup := by
    refine hzs.imp ?_
    rintro a _ hlt rfl
    exact hasymm a a hlt hlt
  have hperm := (List.perm_ext_iff_of_nodup (hnodup hxs) (hnodup hys)).2 h
  exact hperm.eq_of_pairwise (fun a b _ _ hab hba => absurd hba (hasymm a b hab)) hxs hys

variable [DecidableLT κ]

theorem lookup_putSorted [Std.Irrefl (fun x y : κ => x < y)]
    [Std.Trichotomous (fun x y : κ => x < y)] (k : κ) (a : α) (es : List (κ × α)) (k' : κ) :
    (putSorted k a es).lookup k' = if k' = k then some a else es.lookup k' := by
  induction es with
  | nil => simp [putSorted, lookup_cons_if]
  | cons e r ih =>
    simp only [putSorted]
    by_cases hlt : k < e.1
    · simp only [hlt, if_true, lookup_cons_if]
    · by_cases hgt : e.1 < k
      · have hne : e.1 ≠ k := by
          intro he
          rw [he] at hgt
          exact Std.Irrefl.irrefl (r := fun x y : κ => x < y) _ hgt
        simp only [hlt, hgt, if_true, if_false, lookup_cons_if, ih]
        by_cases hk : k' = e.1
        · simp [hk, hne]
        · simp [hk]
      · have he : e.1 = k :=
          Std.Trichotomous.trichotomous (r := fun x y : κ => x < y) _ _ hgt hlt
        rw [if_neg hlt, if_neg hgt, lookup_cons_if, lookup_cons_if, he]
        split <;> rfl

omit [DecidableEq κ] in
/-- A key beyond all others goes to the end. -/
theorem putSorted_last [Std.Asymm (fun x y : κ => x < y)] {k : κ} {es : List (κ × α)} (a : α)
    (h : ∀ e ∈ es, e.1 < k) : putSorted k a es = es ++ [(k, a)] := by
  induction es with
  | nil => rfl
  | cons e r ih =>
    have he := h e (by simp)
    have hnot : ¬ k < e.1 := Std.Asymm.asymm (r := fun x y : κ => x < y) _ _ he
    simp only [putSorted, hnot, he, if_true, if_false, List.cons_append]
    rw [ih fun d hd => h d (by simp [hd])]

namespace SortedMap

omit [DecidableLT κ] in
theorem get?_iff_mem [Std.Irrefl (fun x y : κ => x < y)] (m : SortedMap κ α) (k : κ) (a : α) :
    m.get? k = some a ↔ (k, a) ∈ m.entries :=
  lookup_iff_mem (nodup_keys_of_increasing m.increasing) k a

omit [DecidableLT κ] in
/-- Maps that give the same answers are equal. -/
theorem ext_get? [Std.Irrefl (fun x y : κ => x < y)] [Std.Asymm (fun x y : κ => x < y)]
    {m n : SortedMap κ α} (h : ∀ k, m.get? k = n.get? k) : m = n := by
  refine SortedMap.ext (eq_of_increasing m.increasing n.increasing fun e => ?_)
  rw [← get?_iff_mem, ← get?_iff_mem, h]

omit [DecidableLT κ] in
@[simp] theorem get?_empty (k : κ) : (empty : SortedMap κ α).get? k = none := rfl

variable [Trans (fun x y : κ => x < y) (fun x y => x < y) (fun x y => x < y)]

@[simp] theorem get?_insert [Std.Irrefl (fun x y : κ => x < y)]
    [Std.Trichotomous (fun x y : κ => x < y)] (m : SortedMap κ α) (k : κ) (a : α) (k' : κ) :
    (m.insert k a).get? k' = if k' = k then some a else m.get? k' :=
  lookup_putSorted k a m.entries k'

omit [DecidableEq κ] in
theorem entries_foldl_insert [Std.Asymm (fun x y : κ => x < y)] (m : SortedMap κ α)
    (es : List (κ × α)) (h : (m.entries ++ es).Pairwise fun d e => d.1 < e.1) :
    (es.foldl (fun m e => m.insert e.1 e.2) m).entries = m.entries ++ es := by
  induction es generalizing m with
  | nil => simp
  | cons e r ih =>
    have hlast : ∀ d ∈ m.entries, d.1 < e.1 := by
      intro d hd
      exact (List.pairwise_append.1 h).2.2 d hd e (by simp)
    have hput : (m.insert e.1 e.2).entries = m.entries ++ [e] := putSorted_last e.2 hlast
    rw [List.foldl_cons, ih]
    · rw [hput, List.append_assoc]
      rfl
    · rw [hput, List.append_assoc]
      exact h

omit [DecidableEq κ] in
/-- A list that is already in order is stored as it is. -/
theorem entries_ofList [Std.Asymm (fun x y : κ => x < y)] (es : List (κ × α))
    (h : es.Pairwise fun d e => d.1 < e.1) : (ofList es).entries = es :=
  entries_foldl_insert empty es h

end SortedMap

end Sorted

end WorkflowCompiler
