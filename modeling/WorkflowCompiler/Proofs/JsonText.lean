import WorkflowCompiler.Json.Printer
import WorkflowCompiler.Json.Token

/-!
The compact text of a JSON value whose numbers are whole determines the value. An escaped string is read back,
so it ends where it says; a number ends before the first character that is no digit; the first character of a
text tells what kind of value it is; and items are divided by commas, with which no item begins.
-/

namespace WorkflowCompiler.Json

theorem hex4_control {n : Nat} (h : n < 32) :
    hex4 '0' '0' (hexDigit (n / 16)) (hexDigit (n % 16)) = some n := by
  revert n
  decide

theorem readString_plain {c : Char} (hquote : c ≠ '"') (hslash : c ≠ '\\')
    (hlow : ¬ c.toNat < 0x20) (acc t : List Char) :
    readString acc (c :: t) = readString (c :: acc) t := by
  have hplain : ¬ (c.toNat < 0x20 ∨ c = '\\') := by
    rintro (h | h)
    · exact hlow h
    · exact hslash h
  rw [readString]
  · rw [if_neg hplain]
  · exact hquote
  · intro a b x y r hc
    exact absurd hc hslash
  · intro e r hc
    exact absurd hc hslash

/-- An escaped character is read back, whatever follows. -/
theorem readString_escapeChar (acc t : List Char) (c : Char) :
    readString acc (escapeChar c ++ t) = readString (c :: acc) t := by
  unfold escapeChar
  split
  · simp [readString, simpleEscape]
  · simp [readString, simpleEscape]
  · simp [readString, simpleEscape]
  · simp [readString, simpleEscape]
  · simp [readString, simpleEscape]
  · simp [readString, simpleEscape]
  · simp [readString, simpleEscape]
  · rename_i hquote hslash _ _ _ _ _
    split
    · rename_i hlow
      have hsmall : c.toNat < 32 := hlow
      have hn : c.toNat < 0xD800 ∨ 0xE000 ≤ c.toNat := .inl (by omega)
      simp only [List.cons_append, List.nil_append, readString, hex4_control hsmall, hn, if_true,
        Char.ofNat_toNat]
    · rename_i hlow
      exact readString_plain hquote hslash hlow acc t

theorem readString_escaped (acc s t : List Char) :
    readString acc (s.flatMap escapeChar ++ '"' :: t) = some (acc.reverse ++ s, t) := by
  induction s generalizing acc with
  | nil => simp [readString]
  | cons c r ih =>
    rw [List.flatMap_cons, List.append_assoc, readString_escapeChar, ih]
    simp

/-- A quoted text ends where its string ends. -/
theorem quoted_append_inj {s s' : String} {t u : List Char} (h : quoted s ++ t = quoted s' ++ u) :
    s = s' ∧ t = u := by
  have hread (s : String) (t : List Char) :
      readString [] (quoted s ++ t).tail = some (s.toList, t) := by
    have hq : (quoted s ++ t).tail = s.toList.flatMap escapeChar ++ '"' :: t := by simp [quoted]
    rw [hq, readString_escaped]
    rfl
  have hs := hread s t
  rw [h, hread s' u, Option.some.injEq, Prod.mk.injEq] at hs
  exact ⟨String.toList_inj.1 hs.1.symm, hs.2.symm⟩

/-- No number goes on here. -/
def Ends (t : List Char) : Prop := ∀ c ∈ t.head?, c.isDigit = false

theorem ends_nil : Ends [] := by simp [Ends]

theorem ends_cons {c : Char} (h : c.isDigit = false) (t : List Char) : Ends (c :: t) := by
  simpa [Ends] using h

theorem takeWhile_digits {ds t : List Char} (hds : ∀ c ∈ ds, c.isDigit = true) (ht : Ends t) :
    (ds ++ t).takeWhile Char.isDigit = ds := by
  rw [List.takeWhile_append_of_pos hds]
  cases t with
  | nil => simp
  | cons c r =>
    have hc : c.isDigit = false := ht c rfl
    simp [hc]

theorem isDigit_toDigits (n : Nat) : ∀ c ∈ Nat.toDigits 10 n, c.isDigit = true :=
  fun _ hc => Nat.isDigit_of_mem_toDigits (by decide) (by decide) hc

theorem toDigits_append_inj {m n : Nat} {t u : List Char} (ht : Ends t) (hu : Ends u)
    (h : Nat.toDigits 10 m ++ t = Nat.toDigits 10 n ++ u) : m = n ∧ t = u := by
  have hsame : Nat.toDigits 10 m = Nat.toDigits 10 n := by
    have hm := takeWhile_digits (isDigit_toDigits m) ht
    rw [h, takeWhile_digits (isDigit_toDigits n) hu] at hm
    exact hm.symm
  constructor
  · rw [← Nat.ofDigitChars_ten_toDigits (n := m), hsame, Nat.ofDigitChars_ten_toDigits]
  · rw [hsame] at h
    exact List.append_cancel_left h

/-- The first character of a number is a digit or a sign, and the sign tells that it is negative. -/
theorem intText_cons (i : Int) :
    ∃ c r, intText i = c :: r ∧ (c = '-' ↔ i < 0) ∧ (c = '-' ∨ c.isDigit = true) := by
  unfold intText
  split
  · rename_i hi
    exact ⟨'-', _, rfl, by simp [hi], .inl rfl⟩
  · rename_i hi
    cases hd : Nat.toDigits 10 i.natAbs with
    | nil => exact absurd hd Nat.toDigits_ne_nil
    | cons c r =>
      have hc : c.isDigit = true := isDigit_toDigits i.natAbs c (by simp [hd])
      refine ⟨c, r, rfl, ?_, .inr hc⟩
      have hne : c ≠ '-' := by
        rintro rfl
        revert hc
        decide
      simp [hi, hne]

theorem intText_append_inj {i k : Int} {t u : List Char} (ht : Ends t) (hu : Ends u)
    (h : intText i ++ t = intText k ++ u) : i = k ∧ t = u := by
  have hsign : i < 0 ↔ k < 0 := by
    obtain ⟨c, r, hi, hc, -⟩ := intText_cons i
    obtain ⟨d, r', hk, hd, -⟩ := intText_cons k
    rw [hi, hk] at h
    obtain ⟨rfl, -⟩ := List.cons.inj h
    rw [← hc, hd]
  unfold intText at h
  by_cases hi : i < 0
  · have hk := hsign.1 hi
    rw [if_pos hi, if_pos hk] at h
    obtain ⟨hn, htu⟩ := toDigits_append_inj ht hu (List.cons.inj h).2
    exact ⟨by omega, htu⟩
  · have hk : ¬ k < 0 := fun hk => hi (hsign.2 hk)
    rw [if_neg hi, if_neg hk] at h
    obtain ⟨hn, htu⟩ := toDigits_append_inj ht hu h
    exact ⟨by omega, htu⟩

theorem toList_toString (i : Int) : (toString i).toList = intText i := by
  cases i with
  | ofNat n =>
    have hn : ¬ (Int.ofNat n < 0) := by simp
    rw [intText, if_neg hn]
    exact String.toList_ofList
  | negSucc n =>
    have hn : Int.negSucc n < 0 := Int.negSucc_lt_zero n
    rw [intText, if_pos hn]
    exact String.toList_append.trans (congrArg ('-' :: ·) String.toList_ofList)

theorem toString_int_inj {i k : Int} (h : toString i = toString k) : i = k := by
  have htext : intText i ++ [] = intText k ++ [] := by
    rw [← toList_toString, ← toList_toString, h]
  exact (intText_append_inj ends_nil ends_nil htext).1

/-- All numbers in the value are whole. -/
inductive Whole : Json → Prop where
  | null : Whole .null
  | bool (b : Bool) : Whole (.bool b)
  | int (i : Int) : Whole (.int i)
  | str (s : String) : Whole (.str s)
  | arr {items : List Json} (h : ∀ x ∈ items, Whole x) : Whole (.arr items)
  | obj {members : List (String × Json)} (h : ∀ m ∈ members, Whole m.2) : Whole (.obj members)

theorem whole_obj {members : List (String × Json)} :
    (Json.obj members).Whole ↔ ∀ m ∈ members, m.2.Whole := by
  constructor
  · intro h
    cases h with
    | obj h => exact h
  · exact .obj

/-- What the first character of a text tells. -/
inductive Lead where
  | null
  | truth (b : Bool)
  | number | text | items | members
  deriving DecidableEq

def lead? (c : Char) : Option Lead :=
  if c = 'n' then some .null
  else if c = 't' then some (.truth true)
  else if c = 'f' then some (.truth false)
  else if c = '"' then some .text
  else if c = '[' then some .items
  else if c = '\x7b' then some .members
  else if c = '-' ∨ c.isDigit = true then some .number
  else none

def lead : Json → Lead
  | .null => .null
  | .bool b => .truth b
  | .int _ | .float _ => .number
  | .str _ => .text
  | .arr _ => .items
  | .obj _ => .members

theorem lead?_number {c : Char} (h : c = '-' ∨ c.isDigit = true) : lead? c = some .number := by
  have hne : c ≠ 'n' ∧ c ≠ 't' ∧ c ≠ 'f' ∧ c ≠ '"' ∧ c ≠ '[' ∧ c ≠ '\x7b' := by
    refine ⟨?_, ?_, ?_, ?_, ?_, ?_⟩ <;> rintro rfl <;> revert h <;> decide
  simp [lead?, hne, h]

/-- Parts divided by commas. -/
def separated : List (List Char) → List Char
  | [] => []
  | x :: r => x ++ r.flatMap fun y => ',' :: y

theorem renderItems_compact (d : Nat) (xs : List Json) :
    renderItems .compact d xs = separated (xs.map (render .compact d)) := by
  induction xs with
  | nil => rfl
  | cons x r ih =>
    cases r with
    | nil => simp [renderItems, separated, Layout.compact]
    | cons y r =>
      rw [renderItems, ih]
      · simp [separated, Layout.compact]
      · simp

def memberText (d : Nat) (m : String × Json) : List Char :=
  quoted m.1 ++ ':' :: render .compact d m.2

theorem renderMembers_compact (d : Nat) (ms : List (String × Json)) :
    renderMembers .compact d ms = separated (ms.map (memberText d)) := by
  induction ms with
  | nil => rfl
  | cons m r ih =>
    cases r with
    | nil => simp [renderMembers, separated, memberText, Layout.compact]
    | cons m' r =>
      rw [renderMembers, ih]
      · simp [separated, memberText, Layout.compact]
      · simp

theorem render_arr (d : Nat) (xs : List Json) :
    render .compact d (.arr xs) = '[' :: separated (xs.map (render .compact (d + 1))) ++ [']'] := by
  cases xs with
  | nil => rfl
  | cons x r =>
    have h : render .compact d (.arr (x :: r)) =
        '[' :: renderItems .compact (d + 1) (x :: r) ++ [] ++ [']'] := rfl
    rw [h, renderItems_compact, List.append_nil]

theorem render_obj (d : Nat) (ms : List (String × Json)) :
    render .compact d (.obj ms) = '\x7b' :: separated (ms.map (memberText (d + 1))) ++ ['\x7d'] := by
  cases ms with
  | nil => rfl
  | cons m r =>
    have h : render .compact d (.obj (m :: r)) =
        '\x7b' :: renderMembers .compact (d + 1) (m :: r) ++ [] ++ ['\x7d'] := rfl
    rw [h, renderMembers_compact, List.append_nil]

theorem lead_render {j : Json} (h : j.Whole) (d : Nat) :
    ∃ c r, render .compact d j = c :: r ∧ lead? c = some j.lead := by
  cases h with
  | null => exact ⟨'n', _, rfl, rfl⟩
  | bool b =>
    cases b with
    | true => exact ⟨'t', _, rfl, rfl⟩
    | false => exact ⟨'f', _, rfl, rfl⟩
  | int i =>
    obtain ⟨c, r, hi, -, hc⟩ := intText_cons i
    exact ⟨c, r, hi, lead?_number hc⟩
  | str s => exact ⟨'"', _, rfl, rfl⟩
  | arr h => exact ⟨'[', _, render_arr d _, rfl⟩
  | obj h => exact ⟨'\x7b', _, render_obj d _, rfl⟩

/-- Texts that begin alike are of values of one kind. -/
theorem lead_eq {j k : Json} (hj : j.Whole) (hk : k.Whole) {d : Nat} {t u : List Char}
    (h : render .compact d j ++ t = render .compact d k ++ u) : j.lead = k.lead := by
  obtain ⟨c, r, hc, hlead⟩ := lead_render hj d
  obtain ⟨c', r', hc', hlead'⟩ := lead_render hk d
  rw [hc, hc'] at h
  obtain ⟨rfl, -⟩ := List.cons.inj h
  rw [hlead] at hlead'
  exact Option.some.inj hlead'

section Separated

variable {α : Type} {f : α → List Char} {close : Char}

/-- The texts of these elements, followed by no digit, determine the elements and what follows. -/
def Apart (f : α → List Char) (xs ys : List α) : Prop :=
  ∀ x ∈ xs, ∀ y ∈ ys, ∀ t u, Ends t → Ends u → f x ++ t = f y ++ u → x = y ∧ t = u

theorem Apart.tail {x y : α} {xs ys : List α} (h : Apart f (x :: xs) (y :: ys)) :
    Apart f xs ys := by
  intro x' hx y' hy
  exact h x' (List.mem_cons_of_mem x hx) y' (List.mem_cons_of_mem y hy)

/-- The text is not empty and does not begin with the closing bracket. -/
def Opens (close : Char) (s : List Char) : Prop := ∃ c r, s = c :: r ∧ c ≠ close

theorem Opens.append_ne {s : List Char} (h : Opens close s) (t u : List Char) :
    s ++ t ≠ close :: u := by
  obtain ⟨c, r, rfl, hc⟩ := h
  intro heq
  exact hc (List.cons.inj heq).1

theorem ends_rest (hclose : close.isDigit = false) (xs : List α) (t : List Char) :
    Ends ((xs.map f).flatMap (fun y => ',' :: y) ++ close :: t) := by
  cases xs with
  | nil => exact ends_cons hclose t
  | cons x r => exact ends_cons rfl _

/-- The parts after the first one are told apart by their commas. -/
theorem rest_inj (hcomma : close ≠ ',') (hclose : close.isDigit = false) {xs ys : List α}
    {t u : List Char} (hinj : Apart f xs ys)
    (h : (xs.map f).flatMap (fun y => ',' :: y) ++ close :: t =
      (ys.map f).flatMap (fun y => ',' :: y) ++ close :: u) : xs = ys ∧ t = u := by
  induction xs generalizing ys with
  | nil =>
    cases ys with
    | nil => exact ⟨rfl, (List.cons.inj h).2⟩
    | cons y ys => exact absurd (List.cons.inj h).1 hcomma
  | cons x xs ih =>
    cases ys with
    | nil => exact absurd (List.cons.inj h).1.symm hcomma
    | cons y ys =>
      simp only [List.map_cons, List.flatMap_cons, List.cons_append, List.append_assoc] at h
      obtain ⟨rfl, hrest⟩ := hinj x List.mem_cons_self y List.mem_cons_self _ _
        (ends_rest hclose xs t) (ends_rest hclose ys u) (List.cons.inj h).2
      obtain ⟨rfl, htu⟩ := ih hinj.tail hrest
      exact ⟨rfl, htu⟩

theorem separated_inj (hcomma : close ≠ ',') (hclose : close.isDigit = false) {xs ys : List α}
    {t u : List Char} (hinj : Apart f xs ys) (hx : ∀ x ∈ xs, Opens close (f x))
    (hy : ∀ y ∈ ys, Opens close (f y))
    (h : separated (xs.map f) ++ close :: t = separated (ys.map f) ++ close :: u) :
    xs = ys ∧ t = u := by
  cases xs with
  | nil =>
    cases ys with
    | nil => exact ⟨rfl, (List.cons.inj h).2⟩
    | cons y ys =>
      simp only [List.map_nil, List.map_cons, separated, List.nil_append, List.append_assoc] at h
      exact absurd h.symm ((hy y List.mem_cons_self).append_ne _ _)
  | cons x xs =>
    cases ys with
    | nil =>
      simp only [List.map_nil, List.map_cons, separated, List.nil_append, List.append_assoc] at h
      exact absurd h ((hx x List.mem_cons_self).append_ne _ _)
    | cons y ys =>
      simp only [List.map_cons, separated, List.append_assoc] at h
      obtain ⟨rfl, hrest⟩ := hinj x List.mem_cons_self y List.mem_cons_self _ _
        (ends_rest hclose xs t) (ends_rest hclose ys u) h
      obtain ⟨rfl, htu⟩ := rest_inj hcomma hclose hinj.tail hrest
      exact ⟨rfl, htu⟩

end Separated

theorem opens_render {j : Json} (h : j.Whole) (d : Nat) {close : Char}
    (hclose : lead? close = none) : Opens close (render .compact d j) := by
  obtain ⟨c, r, hr, hlead⟩ := lead_render h d
  refine ⟨c, r, hr, ?_⟩
  rintro rfl
  rw [hclose] at hlead
  cases hlead

theorem opens_memberText (d : Nat) (m : String × Json) : Opens '\x7d' (memberText d m) :=
  ⟨'"', _, rfl, by decide⟩

theorem memberText_append_inj {d : Nat} {m n : String × Json} {t u : List Char}
    (hinj : render .compact d m.2 ++ t = render .compact d n.2 ++ u → m.2 = n.2 ∧ t = u)
    (h : memberText d m ++ t = memberText d n ++ u) : m = n ∧ t = u := by
  simp only [memberText, List.append_assoc, List.cons_append] at h
  obtain ⟨hkey, h⟩ := quoted_append_inj h
  obtain ⟨hvalue, htu⟩ := hinj (List.cons.inj h).2
  exact ⟨Prod.ext hkey hvalue, htu⟩

/-- The text of a value that is followed by no digit determines the value and what follows. -/
theorem render_append_inj {j k : Json} (hj : j.Whole) (hk : k.Whole) {d : Nat} {t u : List Char}
    (ht : Ends t) (hu : Ends u) (h : render .compact d j ++ t = render .compact d k ++ u) :
    j = k ∧ t = u := by
  induction hj generalizing k d t u with
  | null =>
    have hlead := lead_eq .null hk h
    cases hk with
    | null => exact ⟨rfl, List.append_cancel_left h⟩
    | _ => cases hlead
  | bool b =>
    have hlead := lead_eq (.bool b) hk h
    cases hk with
    | bool b' =>
      obtain rfl := Lead.truth.inj hlead
      exact ⟨rfl, List.append_cancel_left h⟩
    | _ => cases hlead
  | int i =>
    have hlead := lead_eq (.int i) hk h
    cases hk with
    | int i' =>
      obtain ⟨rfl, htu⟩ := intText_append_inj ht hu h
      exact ⟨rfl, htu⟩
    | _ => cases hlead
  | str s =>
    have hlead := lead_eq (.str s) hk h
    cases hk with
    | str s' =>
      obtain ⟨rfl, htu⟩ := quoted_append_inj h
      exact ⟨rfl, htu⟩
    | _ => cases hlead
  | @arr items hitems ih =>
    have hlead := lead_eq (.arr hitems) hk h
    cases hk with
    | @arr items' hitems' =>
      have hapart : Apart (render .compact (d + 1)) items items' := by
        intro x hx y hy t u ht hu h
        exact ih x hx (hitems' y hy) ht hu h
      have hopens {xs : List Json} (hxs : ∀ x ∈ xs, x.Whole) :
          ∀ x ∈ xs, Opens ']' (render .compact (d + 1) x) :=
        fun x hx => opens_render (hxs x hx) (d + 1) rfl
      simp only [render_arr, List.cons_append, List.append_assoc, List.nil_append] at h
      obtain ⟨rfl, htu⟩ := separated_inj (by decide) (by decide) hapart (hopens hitems)
        (hopens hitems') (List.cons.inj h).2
      exact ⟨rfl, htu⟩
    | _ => cases hlead
  | @obj members hmembers ih =>
    have hlead := lead_eq (.obj hmembers) hk h
    cases hk with
    | @obj members' hmembers' =>
      have hapart : Apart (memberText (d + 1)) members members' := by
        intro m hm n hn t u ht hu h
        exact memberText_append_inj (ih m hm (hmembers' n hn) ht hu) h
      simp only [render_obj, List.cons_append, List.append_assoc, List.nil_append] at h
      obtain ⟨rfl, htu⟩ := separated_inj (by decide) (by decide) hapart
        (fun m _ => opens_memberText _ m) (fun n _ => opens_memberText _ n) (List.cons.inj h).2
      exact ⟨rfl, htu⟩
    | _ => cases hlead

theorem compact_inj {j k : Json} (hj : j.Whole) (hk : k.Whole) (h : j.compact = k.compact) :
    j = k := by
  have hr : render .compact 0 j ++ [] = render .compact 0 k ++ [] := by
    rw [List.append_nil, List.append_nil]
    exact String.ofList_injective h
  exact (render_append_inj hj hk ends_nil ends_nil hr).1

end WorkflowCompiler.Json
