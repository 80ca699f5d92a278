/-!
Finite maps that keep the order of first insertion, and finite maps ordered by key. Both are lists
of entries with the invariant on their keys, so equality is equality of what can be observed.
-/

namespace WorkflowCompiler

universe u v

variable {κ : Type u} {α : Type v}

/-- A key that is present keeps its place and takes the new value; a new key goes to the end. -/
def putEntry [DecidableEq κ] (k : κ) (a : α) : List (κ × α) → List (κ × α)
  | [] => [(k, a)]
  | e :: r => if e.1 = k then (k, a) :: r else e :: putEntry k a r

theorem keys_putEntry [DecidableEq κ] (k : κ) (a : α) (es : List (κ × α)) :
    (putEntry k a es).map Prod.fst =
      if k ∈ es.map Prod.fst then es.map Prod.fst else es.map Prod.fst ++ [k] := by
  induction es with
  | nil => simp [putEntry]
  | cons e r ih =>
    simp only [putEntry]
    by_cases h : e.1 = k
    · simp [h]
    · have h' : ¬ k = e.1 := fun hk => h hk.symm
      simp only [h, if_false, List.map_cons, ih, List.mem_cons, h', false_or]
      split <;> simp

theorem mem_putEntry [DecidableEq κ] {k : κ} {a : α} {es : List (κ × α)} {e : κ × α}
    (h : e ∈ putEntry k a es) : e = (k, a) ∨ e ∈ es := by
  induction es with
  | nil => exact .inl (List.mem_singleton.1 h)
  | cons d r ih =>
    simp only [putEntry] at h
    split at h
    · rcases List.mem_cons.1 h with rfl | h
      · exact .inl rfl
      · exact .inr (List.mem_cons_of_mem d h)
    · rcases List.mem_cons.1 h with rfl | h
      · exact .inr List.mem_cons_self
      · exact (ih h).imp_right (List.mem_cons_of_mem d)

/-- Entries in the order in which their keys first came. -/
structure OrderedMap (κ : Type u) (α : Type v) where
  entries : List (κ × α)
  distinct : (entries.map Prod.fst).Nodup

namespace OrderedMap

@[ext] theorem ext {m n : OrderedMap κ α} (h : m.entries = n.entries) : m = n := by
  cases m; cases n; simp_all

def empty : OrderedMap κ α := ⟨[], by simp⟩

def keys (m : OrderedMap κ α) : List κ := m.entries.map Prod.fst

variable [DecidableEq κ]

instance [DecidableEq α] : DecidableEq (OrderedMap κ α) := fun m n =>
  decidable_of_iff (m.entries = n.entries) ⟨ext, fun h => h ▸ rfl⟩

def insert (m : OrderedMap κ α) (k : κ) (a : α) : OrderedMap κ α where
  entries := putEntry k a m.entries
  distinct := by
    rw [keys_putEntry]
    split
    · exact m.distinct
    · rename_i h
      rw [List.nodup_append]
      refine ⟨m.distinct, by simp, ?_⟩
      intro x hx y hy hxy
      simp only [List.mem_singleton] at hy
      exact h (hy ▸ hxy ▸ hx)

def ofList (es : List (κ × α)) : OrderedMap κ α := es.foldl (fun m e => m.insert e.1 e.2) empty

def get? (m : OrderedMap κ α) (k : κ) : Option α := m.entries.lookup k

def contains (m : OrderedMap κ α) (k : κ) : Bool := (m.get? k).isSome

def size (m : OrderedMap κ α) : Nat := m.entries.length

end OrderedMap

instance textTrans : Trans (fun s t : String => s < t) (fun s t => s < t) (fun s t => s < t) :=
  ⟨String.lt_trans⟩

section Sorted

variable [LT κ] [DecidableLT κ]

/-- Keeps a list of entries ordered by key; the value under a present key is replaced. -/
def putSorted (k : κ) (a : α) : List (κ × α) → List (κ × α)
  | [] => [(k, a)]
  | e :: r =>
    if k < e.1 then (k, a) :: e :: r
    else if e.1 < k then e :: putSorted k a r
    else (e.1, a) :: r

theorem mem_putSorted {k : κ} {a : α} {es : List (κ × α)} {e : κ × α}
    (h : e ∈ putSorted k a es) : e.1 = k ∨ ∃ e' ∈ es, e'.1 = e.1 := by
  induction es with
  | nil => simp_all [putSorted]
  | cons d r ih =>
    simp only [putSorted] at h
    split at h
    · rcases List.mem_cons.1 h with rfl | h
      · exact .inl rfl
      · exact .inr ⟨e, h, rfl⟩
    · split at h
      · rcases List.mem_cons.1 h with rfl | h
        · exact .inr ⟨e, by simp, rfl⟩
        · rcases ih h with h | ⟨e', he', hk⟩
          · exact .inl h
          · exact .inr ⟨e', by simp [he'], hk⟩
      · rcases List.mem_cons.1 h with rfl | h
        · exact .inr ⟨d, by simp, rfl⟩
        · exact .inr ⟨e, by simp [h], rfl⟩

/-- Entries in strictly increasing order of their keys. -/
structure SortedMap (κ : Type u) (α : Type v) [LT κ] where
  entries : List (κ × α)
  increasing : entries.Pairwise fun d e => d.1 < e.1

namespace SortedMap

omit [DecidableLT κ] in
@[ext] theorem ext {m n : SortedMap κ α} (h : m.entries = n.entries) : m = n := by
  cases m; cases n; simp_all

def empty : SortedMap κ α := ⟨[], .nil⟩

def keys (m : SortedMap κ α) : List κ := m.entries.map Prod.fst

def values (m : SortedMap κ α) : List α := m.entries.map Prod.snd

def size (m : SortedMap κ α) : Nat := m.entries.length

def get? [DecidableEq κ] (m : SortedMap κ α) (k : κ) : Option α := m.entries.lookup k

instance [DecidableEq κ] [DecidableEq α] : DecidableEq (SortedMap κ α) := fun m n =>
  decidable_of_iff (m.entries = n.entries) ⟨ext, fun h => h ▸ rfl⟩

variable [Trans (fun x y : κ => x < y) (fun x y => x < y) (fun x y => x < y)]

theorem pairwise_putSorted (k : κ) (a : α) {es : List (κ × α)}
    (h : es.Pairwise fun d e => d.1 < e.1) :
    (putSorted k a es).Pairwise fun d e => d.1 < e.1 := by
  induction es with
  | nil => simp [putSorted]
  | cons d r ih =>
    obtain ⟨hd, hr⟩ := List.pairwise_cons.1 h
    simp only [putSorted]
    split
    · rename_i hk
      refine List.pairwise_cons.2 ⟨?_, h⟩
      intro e he
      rcases List.mem_cons.1 he with rfl | he
      · exact hk
      · exact Std.lt_trans hk (hd e he)
    · split
      · rename_i hk
        refine List.pairwise_cons.2 ⟨?_, ih hr⟩
        intro e he
        rcases mem_putSorted he with h | ⟨e', he', h⟩
        · exact h ▸ hk
        · exact h ▸ hd e' he'
      · exact List.pairwise_cons.2 ⟨hd, hr⟩

def insert (m : SortedMap κ α) (k : κ) (a : α) : SortedMap κ α :=
  ⟨putSorted k a m.entries, pairwise_putSorted k a m.increasing⟩

def ofList (es : List (κ × α)) : SortedMap κ α := es.foldl (fun m e => m.insert e.1 e.2) empty

end SortedMap

end Sorted

end WorkflowCompiler
