import WorkflowCompiler.Json.Reader
import WorkflowCompiler.Proofs.Basic
import WorkflowCompiler.Proofs.JsonText

/-!
Written JSON is read back, whatever the layout puts between the tokens. Reading goes in two passes, and so does the
proof: the text of a value is cut into the tokens of the value, and on these tokens the machine builds the value.
A value is read back when no object has a key twice, all numbers are whole and have 64 bits, and no more
containers are nested than may be open at once.
-/

namespace WorkflowCompiler.Json

/-- Objects have distinct keys, numbers are whole and are such as `number` says, and at most `depth` containers are
inside one another. -/
inductive Tidy (number : Int → Prop) : Nat → Json → Prop where
  | null {depth : Nat} : Tidy number depth .null
  | bool {depth : Nat} (b : Bool) : Tidy number depth (.bool b)
  | int {depth : Nat} {i : Int} (h : number i) : Tidy number depth (.int i)
  | str {depth : Nat} (s : String) : Tidy number depth (.str s)
  | arr {depth : Nat} {items : List Json} (h : ∀ x ∈ items, Tidy number depth x) :
      Tidy number (depth + 1) (.arr items)
  | obj {depth : Nat} {members : List (String × Json)} (hkeys : (members.map Prod.fst).Nodup)
      (h : ∀ m ∈ members, Tidy number depth m.2) : Tidy number (depth + 1) (.obj members)

theorem Tidy.whole {number : Int → Prop} {depth : Nat} {j : Json} (h : Tidy number depth j) :
    j.Whole := by
  induction h with
  | null => exact .null
  | bool b => exact .bool b
  | int _ => exact .int _
  | str s => exact .str s
  | arr _ ih => exact .arr ih
  | obj _ _ ih => exact .obj ih

/-- The numbers that are read as whole ones: those of 64 bits, with a sign or without. -/
def IsWord (i : Int) : Prop := -(Nat.pow 2 63 : Nat) ≤ i ∧ i < (Nat.pow 2 64 : Nat)

mutual

/-- The tokens of a value. -/
def toTokens : Json → List Token
  | .null => [.null]
  | .bool b => [.bool b]
  | .int i => [.int i]
  | .float x => [.float x]
  | .str s => [.str s]
  | .arr items => .openBracket :: itemTokens items ++ [.closeBracket]
  | .obj members => .openBrace :: memberTokens members ++ [.closeBrace]

def itemTokens : List Json → List Token
  | [] => []
  | [x] => toTokens x
  | x :: r => toTokens x ++ .comma :: itemTokens r

def memberTokens : List (String × Json) → List Token
  | [] => []
  | [(k, x)] => .str k :: .colon :: toTokens x
  | (k, x) :: r => .str k :: .colon :: toTokens x ++ .comma :: memberTokens r

end

section Numerals

theorem readDigits_append {ds t : List Char} (hds : ∀ c ∈ ds, c.isDigit = true) (hne : ds ≠ [])
    (ht : Ends t) : readDigits (ds ++ t) = some (ds, t) := by
  have htake := takeWhile_digits hds ht
  have hdrop : (ds ++ t).dropWhile Char.isDigit = t := by
    have hall := List.takeWhile_append_dropWhile (p := Char.isDigit) (l := ds ++ t)
    rw [htake] at hall
    exact List.append_cancel_left hall
  rw [readDigits, htake, hdrop, if_neg (by simpa using hne)]

/-- Only zero itself is written with a leading zero. -/
theorem head?_toDigits {n : Nat} (h : (Nat.toDigits 10 n).head? = some '0') : n = 0 := by
  induction n using Nat.strongRecOn with
  | ind n ih =>
    by_cases hn : n < 10
    · rw [Nat.toDigits_of_lt_base hn] at h
      revert h
      have hall : ∀ m < 10, [Nat.digitChar m].head? = some '0' → m = 0 := by decide
      exact hall n hn
    · have hrest : (Nat.toDigits 10 (n / 10)).head? = some '0' := by
        rw [Nat.toDigits_of_base_le (by decide) (by omega), List.head?_append] at h
        cases hd : Nat.toDigits 10 (n / 10) with
        | nil => exact absurd hd Nat.toDigits_ne_nil
        | cons c r => simpa [hd] using h
      have := ih (n / 10) (by omega) hrest
      omega

/-- A significand that fits is taken as a whole. -/
theorem absorb_eq {ds : List Char} {significand : Nat}
    (h : Nat.ofDigitChars 10 ds significand ≤ maxSignificand) (taken : Nat) :
    absorb significand taken ds = (Nat.ofDigitChars 10 ds significand, taken + ds.length) := by
  induction ds generalizing significand taken with
  | nil => simp [absorb]
  | cons d r ih =>
    rw [Nat.ofDigitChars_cons, Nat.mul_comm] at h
    have hfits : significand * 10 + (d.toNat - '0'.toNat) ≤ maxSignificand := by
      rw [Nat.ofDigitChars_eq_ofDigitChars_zero] at h
      have hone : 0 < 10 ^ r.length := Nat.pow_pos (by decide)
      have := Nat.le_mul_of_pos_left (significand * 10 + (d.toNat - '0'.toNat)) hone
      omega
    rw [absorb, if_pos hfits, ih h, Nat.ofDigitChars_cons, Nat.mul_comm 10, List.length_cons]
    congr 1
    omega

/-- No number goes on here, not even with a point or an exponent. -/
def Stops (t : List Char) : Prop := ∀ c ∈ t.head?, c.isDigit = false ∧ c ≠ '.' ∧ c ≠ 'e' ∧ c ≠ 'E'

theorem Stops.ends {t : List Char} (h : Stops t) : Ends t := fun c hc => (h c hc).1

theorem Stops.readFraction {t : List Char} (h : Stops t) : readFraction t = some (none, t) := by
  unfold Json.readFraction
  split
  · exact absurd rfl (h '.' rfl).2.1
  · rfl

theorem Stops.readExponent {t : List Char} (h : Stops t) : readExponent t = some (none, t) := by
  cases t with
  | nil => rfl
  | cons c r =>
    have hc := h c rfl
    simp [Json.readExponent, hc.2.2]

theorem readNumeral_intText (i : Int) {t : List Char} (ht : Stops t) :
    readNumeral (intText i ++ t) =
      some (⟨decide (i < 0), Nat.toDigits 10 i.natAbs, none, none⟩, t) := by
  have hread := readDigits_append (isDigit_toDigits i.natAbs) Nat.toDigits_ne_nil ht.ends
  have hzero : ¬ ((Nat.toDigits 10 i.natAbs).head? = some '0' ∧
      1 < (Nat.toDigits 10 i.natAbs).length) := by
    rintro ⟨hhead, hlen⟩
    rw [head?_toDigits hhead, Nat.toDigits_zero] at hlen
    exact absurd hlen (by decide)
  have hsign : ((intText i ++ t).head? == some '-') = decide (i < 0) := by
    obtain ⟨c, r, hc, hneg, -⟩ := intText_cons i
    rw [hc, Bool.eq_iff_iff]
    simp [hneg]
  have hdigits : (if decide (i < 0) = true then (intText i ++ t).drop 1 else intText i ++ t) =
      Nat.toDigits 10 i.natAbs ++ t := by
    by_cases hi : i < 0
    · simp [intText, hi]
    · simp [intText, hi]
  simp only [readNumeral, hsign, hdigits, hread, Option.bind_eq_bind, Option.bind_some, hzero,
    if_false, ht.readFraction, ht.readExponent, Option.pure_def]

theorem token_intText {i : Int} (hi : IsWord i) :
    Numeral.token ⟨decide (i < 0), Nat.toDigits 10 i.natAbs, none, none⟩ = some (.int i) := by
  have h63 : Nat.pow 2 63 = 9223372036854775808 := rfl
  have h64 : Nat.pow 2 64 = 18446744073709551616 := rfl
  simp only [IsWord, h63, h64] at hi
  have hmax : Nat.ofDigitChars 10 (Nat.toDigits 10 i.natAbs) 0 ≤ maxSignificand := by
    rw [Nat.ofDigitChars_ten_toDigits, maxSignificand, h64]
    omega
  have habsorb := absorb_eq hmax 0
  rw [Nat.ofDigitChars_ten_toDigits] at habsorb
  simp only [Numeral.token, habsorb, Option.isNone_none, Nat.zero_add, Nat.sub_self, and_self,
    if_true, Numeral.wholeToken]
  by_cases hneg : i < 0
  · have hsmall : ¬ (i.natAbs = 0 ∨ Nat.pow 2 63 < i.natAbs) := by
      rw [h63]
      omega
    have habs : -(i.natAbs : Int) = i := by omega
    rw [if_neg (by simp [hneg]), if_neg hsmall, habs]
  · have habs : (i.natAbs : Int) = i := by omega
    rw [if_pos (by simp [hneg]), habs]

end Numerals

section Tokens

variable {acc : List Token} {t : List Char}

theorem tokens_blanks {bs : List Char} (hbs : ∀ c ∈ bs, isBlank c = true) :
    tokens acc (bs ++ t) = tokens acc t := by
  induction bs with
  | nil => rfl
  | cons c r ih =>
    obtain ⟨hc, hr⟩ := List.forall_mem_cons.1 hbs
    rw [List.cons_append, tokens.eq_def]
    simp only [hc, if_true, ih hr]

/-- The tokens that are one character. -/
def mark? : Char → Option Token
  | '\x7b' => some .openBrace
  | '\x7d' => some .closeBrace
  | '[' => some .openBracket
  | ']' => some .closeBracket
  | ',' => some .comma
  | ':' => some .colon
  | _ => none

theorem tokens_mark {c : Char} {m : Token} (h : mark? c = some m) :
    tokens acc (c :: t) = tokens (m :: acc) t := by
  unfold mark? at h
  split at h
  case h_7 => cases h
  all_goals
    obtain rfl := Option.some.inj h
    exact tokens.eq_def acc (_ :: t)

theorem tokens_quoted (s : String) : tokens acc (quoted s ++ t) = tokens (.str s :: acc) t := by
  have hq : quoted s ++ t = '"' :: (s.toList.flatMap escapeChar ++ '"' :: t) := by simp [quoted]
  have hread := readString_escaped [] s.toList t
  rw [hq, tokens, if_neg (by decide)]
  split
  · rename_i s' r' h
    rw [hread, Option.some.injEq, Prod.mk.injEq] at h
    obtain ⟨rfl, rfl⟩ := h
    simp
  · rename_i h
    rw [hread] at h
    cases h

theorem tokens_intText {i : Int} (hi : IsWord i) (ht : Stops t) :
    tokens acc (intText i ++ t) = tokens (.int i :: acc) t := by
  obtain ⟨c, r, hc, -, hlead⟩ := intText_cons i
  have hread := readNumeral_intText i ht
  rw [hc, List.cons_append] at hread ⊢
  have hblank : ¬ isBlank c = true := by
    intro h
    simp only [isBlank, Bool.or_eq_true, beq_iff_eq] at h
    rcases h with ((rfl | rfl) | rfl) | rfl
    all_goals
      revert hlead
      decide
  rw [tokens, if_neg hblank]
  · split
    · rename_i n r' h
      rw [hread, Option.some.injEq, Prod.mk.injEq] at h
      obtain ⟨rfl, rfl⟩ := h
      rw [token_intText hi]
    · rename_i h
      rw [hread] at h
      cases h
  all_goals
    rintro rfl
    revert hlead
    decide

end Tokens

/-- Only blanks stand between tokens. -/
structure Layout.Blank (layout : Layout) : Prop where
  gap : ∀ depth, ∀ c ∈ layout.gap depth, isBlank c = true
  colon : ∃ bs, layout.colon = ':' :: bs ∧ ∀ c ∈ bs, isBlank c = true

theorem Layout.blank_compact : Layout.compact.Blank :=
  ⟨by simp [Layout.compact], [], rfl, by simp⟩

theorem Layout.blank_indented : Layout.indented.Blank := by
  refine ⟨?_, [' '], rfl, by simp [isBlank]⟩
  intro depth c hc
  rcases List.mem_cons.1 hc with rfl | hc
  · rfl
  · rw [(List.mem_replicate.1 hc).2]
    rfl

theorem stops_cons {c : Char} (h : c.isDigit = false ∧ c ≠ '.' ∧ c ≠ 'e' ∧ c ≠ 'E')
    (t : List Char) : Stops (c :: t) := by
  simpa [Stops] using h

theorem stops_blanks {bs t : List Char} (hbs : ∀ c ∈ bs, isBlank c = true) (ht : Stops t) :
    Stops (bs ++ t) := by
  cases bs with
  | nil => exact ht
  | cons c r =>
    apply stops_cons
    have hc := hbs c (by simp)
    simp only [isBlank, Bool.or_eq_true, beq_iff_eq] at hc
    rcases hc with ((rfl | rfl) | rfl) | rfl <;> decide

/-- The text of the value, with something after it that does not go on a number, is cut into its tokens. -/
def Cuts (layout : Layout) (d : Nat) (j : Json) : Prop :=
  ∀ acc t, Stops t → tokens acc (render layout d j ++ t) = tokens (j.toTokens.reverse ++ acc) t

section Cut

variable {layout : Layout} (hl : layout.Blank)

include hl

theorem stops_close (d : Nat) {c : Char} (h : c.isDigit = false ∧ c ≠ '.' ∧ c ≠ 'e' ∧ c ≠ 'E')
    (t : List Char) : Stops (layout.gap d ++ c :: t) :=
  stops_blanks (hl.gap d) (stops_cons h t)

theorem tokens_renderItems {d : Nat} {items : List Json} (h : ∀ x ∈ items, Cuts layout d x)
    (acc : List Token) {t : List Char} (ht : Stops t) :
    tokens acc (renderItems layout d items ++ t) =
      tokens ((itemTokens items).reverse ++ acc) t := by
  induction items generalizing acc with
  | nil => rfl
  | cons x r ih =>
    obtain ⟨hx, hr⟩ := List.forall_mem_cons.1 h
    cases r with
    | nil =>
      rw [renderItems, itemTokens, List.append_assoc, tokens_blanks (hl.gap d), hx acc t ht]
    | cons y r =>
      have hcomma : Stops (',' :: (renderItems layout d (y :: r) ++ t)) := stops_cons (by decide) _
      rw [renderItems, itemTokens]
      · simp only [List.append_assoc, List.cons_append]
        rw [tokens_blanks (hl.gap d), hx _ _ hcomma, tokens_mark rfl, ih hr]
        simp
      · simp
      · simp

theorem tokens_member {d : Nat} {m : String × Json} (h : Cuts layout d m.2) (acc : List Token)
    {t : List Char} (ht : Stops t) :
    tokens acc (layout.gap d ++ quoted m.1 ++ layout.colon ++ render layout d m.2 ++ t) =
      tokens (m.2.toTokens.reverse ++ .colon :: .str m.1 :: acc) t := by
  obtain ⟨bs, hcolon, hbs⟩ := hl.colon
  simp only [hcolon, List.append_assoc, List.cons_append]
  rw [tokens_blanks (hl.gap d), tokens_quoted, tokens_mark rfl, tokens_blanks hbs, h _ _ ht]

theorem tokens_renderMembers {d : Nat} {members : List (String × Json)}
    (h : ∀ m ∈ members, Cuts layout d m.2) (acc : List Token) {t : List Char} (ht : Stops t) :
    tokens acc (renderMembers layout d members ++ t) =
      tokens ((memberTokens members).reverse ++ acc) t := by
  induction members generalizing acc with
  | nil => rfl
  | cons m r ih =>
    obtain ⟨hm, hr⟩ := List.forall_mem_cons.1 h
    cases r with
    | nil =>
      rw [renderMembers, memberTokens, tokens_member hl hm acc ht]
      simp
    | cons m' r =>
      have hcomma : Stops (',' :: (renderMembers layout d (m' :: r) ++ t)) :=
        stops_cons (by decide) _
      rw [renderMembers, memberTokens]
      · rw [List.append_assoc, List.cons_append, tokens_member hl hm acc hcomma, tokens_mark rfl,
          ih hr]
        simp
      · simp
      · simp

theorem cuts_of_tidy {depth : Nat} {j : Json} (hj : Tidy IsWord depth j) (d : Nat) :
    Cuts layout d j := by
  induction hj generalizing d with
  | null =>
    intro acc t _
    exact tokens.eq_def acc ('n' :: 'u' :: 'l' :: 'l' :: t)
  | bool b =>
    intro acc t _
    cases b with
    | true => exact tokens.eq_def acc ('t' :: 'r' :: 'u' :: 'e' :: t)
    | false => exact tokens.eq_def acc ('f' :: 'a' :: 'l' :: 's' :: 'e' :: t)
  | int hi =>
    intro acc t ht
    exact tokens_intText hi ht
  | str s =>
    intro acc t _
    exact tokens_quoted s
  | @arr depth items _ ih =>
    intro acc t ht
    cases items with
    | nil =>
      change tokens acc ('[' :: ']' :: t) = _
      rw [tokens_mark rfl, tokens_mark rfl]
      rfl
    | cons x r =>
      -- The last item may be a number, which must end before the bracket.
      have hclose := stops_close hl d (c := ']') (by decide) t
      rw [render, toTokens]
      simp only [List.cons_append, List.append_assoc, List.nil_append]
      rw [tokens_mark rfl, tokens_renderItems hl (fun y hy => ih y hy (d + 1)) _ hclose,
        tokens_blanks (hl.gap d), tokens_mark rfl]
      simp
  | @obj depth members _ _ ih =>
    intro acc t ht
    cases members with
    | nil =>
      change tokens acc ('\x7b' :: '\x7d' :: t) = _
      rw [tokens_mark rfl, tokens_mark rfl]
      rfl
    | cons m r =>
      have hclose := stops_close hl d (c := '\x7d') (by decide) t
      rw [render, toTokens]
      simp only [List.cons_append, List.append_assoc, List.nil_append]
      rw [tokens_mark rfl, tokens_renderMembers hl (fun y hy => ih y hy (d + 1)) _ hclose,
        tokens_blanks (hl.gap d), tokens_mark rfl]
      simp

end Cut

namespace Machine

theorem step_value {token : Token} (h : token ≠ .closeBracket) (stack : List Frame)
    (mayClose : Bool) : step ⟨stack, .value mayClose⟩ token = value stack token := by
  unfold step
  split
  all_goals simp_all

/-- Where a value may come, the tokens of this one make the machine go on as if the value had been given at once. -/
def Builds (depth : Nat) (j : Json) : Prop :=
  ∀ stack mayClose, stack.length + depth ≤ maxDepth →
    j.toTokens.foldlM step ⟨stack, .value mayClose⟩ = some (give stack j)

theorem builds_atom {depth : Nat} {j : Json} {token : Token} (ht : j.toTokens = [token])
    (hclose : token ≠ .closeBracket) (hvalue : ∀ stack, value stack token = some (give stack j)) :
    Builds depth j := by
  intro stack mayClose _
  rw [ht, List.foldlM_cons, step_value hclose, hvalue]
  rfl

theorem run_items {depth : Nat} {x : Json} {r : List Json} (h : ∀ y ∈ x :: r, Builds depth y)
    {stack : List Frame} (hstack : stack.length + 1 + depth ≤ maxDepth) (done : List Json)
    (mayClose : Bool) :
    (itemTokens (x :: r)).foldlM step ⟨.arr done :: stack, .value mayClose⟩ =
      some ⟨.arr ((x :: r).reverse ++ done) :: stack, .next⟩ := by
  induction r generalizing x done mayClose with
  | nil =>
    rw [itemTokens, h x (by simp) (.arr done :: stack) mayClose hstack]
    rfl
  | cons y r ih =>
    obtain ⟨hx, hr⟩ := List.forall_mem_cons.1 h
    rw [itemTokens]
    · rw [List.foldlM_append, hx (.arr done :: stack) mayClose hstack, Option.bind_eq_bind,
        Option.bind_some, List.foldlM_cons]
      change (itemTokens (y :: r)).foldlM step ⟨.arr (x :: done) :: stack, .value false⟩ = _
      rw [ih hr]
      simp
    · simp

theorem not_mem_of_nodup {m : String × Json} {done r : List (String × Json)}
    (h : ((done ++ m :: r).map Prod.fst).Nodup) : m.1 ∉ done.map Prod.fst := by
  rw [List.map_append, List.nodup_append] at h
  intro hmem
  exact h.2.2 m.1 hmem m.1 (by simp) rfl

theorem step_key (done : List (String × Json)) (key k : String) (stack : List Frame)
    (mayClose : Bool) : step ⟨.obj done key :: stack, .key mayClose⟩ (.str k) =
      some ⟨.obj done k :: stack, .colon⟩ := by
  cases mayClose with
  | true => rfl
  | false => rfl

theorem run_member {depth : Nat} {m : String × Json} (h : Builds depth m.2) {stack : List Frame}
    (hstack : stack.length + 1 + depth ≤ maxDepth) {done : List (String × Json)}
    (hkey : m.1 ∉ done.map Prod.fst) (key : String) (mayClose : Bool) :
    (.str m.1 :: .colon :: m.2.toTokens : List Token).foldlM step
        ⟨.obj done key :: stack, .key mayClose⟩ =
      some ⟨.obj (done ++ [m]) m.1 :: stack, .next⟩ := by
  have hvalue := h (.obj done m.1 :: stack) false hstack
  rw [give, putEntry_new m.2 hkey] at hvalue
  rw [List.foldlM_cons, step_key, Option.bind_eq_bind, Option.bind_some, List.foldlM_cons]
  exact hvalue

theorem run_members {depth : Nat} {m : String × Json} {r : List (String × Json)}
    (h : ∀ m' ∈ m :: r, Builds depth m'.2) {stack : List Frame}
    (hstack : stack.length + 1 + depth ≤ maxDepth) (done : List (String × Json))
    (hkeys : ((done ++ m :: r).map Prod.fst).Nodup) (key : String) (mayClose : Bool) :
    ∃ last, (memberTokens (m :: r)).foldlM step ⟨.obj done key :: stack, .key mayClose⟩ =
      some ⟨.obj (done ++ m :: r) last :: stack, .next⟩ := by
  induction r generalizing m done key mayClose with
  | nil =>
    have hnew := not_mem_of_nodup hkeys
    exact ⟨m.1, run_member (h m (by simp)) hstack hnew key mayClose⟩
  | cons m' r ih =>
    obtain ⟨hm, hr⟩ := List.forall_mem_cons.1 h
    have hnew := not_mem_of_nodup hkeys
    rw [List.append_cons] at hkeys ⊢
    rw [memberTokens]
    · rw [List.foldlM_append, run_member hm hstack hnew key mayClose, Option.bind_eq_bind,
        Option.bind_some, List.foldlM_cons]
      exact ih hr _ hkeys m.1 false
    · simp

/-- The machine builds the value from its tokens, if it does not run out of depth. -/
theorem builds_of_tidy {number : Int → Prop} {depth : Nat} {j : Json} (hj : Tidy number depth j) :
    Builds depth j := by
  induction hj with
  | null => exact builds_atom rfl (by simp) fun _ => rfl
  | bool b => exact builds_atom rfl (by simp) fun _ => rfl
  | int _ => exact builds_atom rfl (by simp) fun _ => rfl
  | str s => exact builds_atom rfl (by simp) fun _ => rfl
  | @arr depth items _ ih =>
    intro stack mayClose hdepth
    have hpush : push stack (.arr []) (.value true) = some ⟨.arr [] :: stack, .value true⟩ := by
      rw [push, if_pos (by omega)]
    rw [toTokens, List.cons_append, List.foldlM_cons, step_value (by simp), value, hpush,
      Option.bind_eq_bind, Option.bind_some]
    cases items with
    | nil => rfl
    | cons x r =>
      rw [List.foldlM_append, run_items ih (by omega)]
      simp [step]
  | @obj depth members hkeys _ ih =>
    intro stack mayClose hdepth
    have hpush : push stack (.obj [] "") (.key true) = some ⟨.obj [] "" :: stack, .key true⟩ := by
      rw [push, if_pos (by omega)]
    rw [toTokens, List.cons_append, List.foldlM_cons, step_value (by simp), value, hpush,
      Option.bind_eq_bind, Option.bind_some]
    cases members with
    | nil => rfl
    | cons m r =>
      have hstack : stack.length + 1 + depth ≤ maxDepth := by omega
      obtain ⟨last, hrun⟩ := run_members ih hstack [] hkeys "" true
      rw [List.foldlM_append, hrun]
      rfl

end Machine

/-- A tidy value is read back from its text in any layout, also with blanks after it. -/
theorem parse_render {layout : Layout} (hl : layout.Blank) {j : Json}
    (hj : Tidy IsWord Machine.maxDepth j) (d : Nat) {bs : List Char}
    (hbs : ∀ c ∈ bs, isBlank c = true) :
    parse (String.ofList (render layout d j ++ bs)) = some j := by
  have hstops : Stops bs := by
    rw [← List.append_nil bs]
    exact stops_blanks hbs (by simp [Stops])
  have htokens : tokens [] (render layout d j ++ bs) = some j.toTokens := by
    rw [cuts_of_tidy hl hj d [] bs hstops, ← List.append_nil bs, tokens_blanks hbs, tokens]
    simp
  have hrun := Machine.builds_of_tidy hj [] false (by simp)
  simp only [parse, String.toList_ofList, htokens, Machine.start, hrun, Option.bind_eq_bind,
    Option.bind_some]
  rfl

end WorkflowCompiler.Json
