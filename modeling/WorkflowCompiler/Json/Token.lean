import WorkflowCompiler.Json.Basic
import WorkflowCompiler.Text.Hex

/-!
The tokens of JSON text. Blanks between tokens are space, tab, line feed and carriage return. A string
holds no raw control character and no half of a surrogate pair. A number that is no 64-bit integer
becomes a binary fraction: as many leading digits as fit into 64 bits, scaled by one power of ten.
-/

namespace WorkflowCompiler.Json

open Text (hexValue)

inductive Token where
  | openBrace | closeBrace | openBracket | closeBracket | comma | colon
  | null | bool (b : Bool)
  | int (i : Int)
  | float (x : Binary64)
  | str (s : String)
  deriving DecidableEq, Repr

def isBlank (c : Char) : Bool := c == ' ' || c == '\t' || c == '\n' || c == '\r'

def hex4 (a b c d : Char) : Option Nat := do
  let a ← hexValue a
  let b ← hexValue b
  let c ← hexValue c
  let d ← hexValue d
  return ((a * 16 + b) * 16 + c) * 16 + d

def simpleEscape : Char → Option Char
  | '"' => some '"'
  | '\\' => some '\\'
  | '/' => some '/'
  | 'b' => some '\x08'
  | 'f' => some '\x0c'
  | 'n' => some '\n'
  | 'r' => some '\r'
  | 't' => some '\t'
  | _ => none

/-- Two halves of a pair stand for one character beyond the first plane. -/
def joinSurrogates (high low : Nat) : Option Char :=
  if 0xD800 ≤ high ∧ high < 0xDC00 ∧ 0xDC00 ≤ low ∧ low < 0xE000 then
    some (Char.ofNat (0x10000 + (high - 0xD800) * 0x400 + (low - 0xDC00)))
  else none

/-- The rest of a string after its opening quote, decoded, and what follows the closing quote. The characters
read so far are in `acc`, last one first. -/
def readString (acc : List Char) : List Char → Option (List Char × List Char)
  | [] => none
  | '"' :: r => some (acc.reverse, r)
  | '\\' :: 'u' :: a :: b :: c :: d :: r =>
    match hex4 a b c d with
    | none => none
    | some n =>
      if n < 0xD800 ∨ 0xE000 ≤ n then readString (Char.ofNat n :: acc) r
      else
        match r with
        | '\\' :: 'u' :: a' :: b' :: c' :: d' :: r' =>
          match (hex4 a' b' c' d').bind (joinSurrogates n) with
          | some ch => readString (ch :: acc) r'
          | none => none
        | _ => none
  | '\\' :: e :: r =>
    match simpleEscape e with
    | some c => readString (c :: acc) r
    | none => none
  | c :: r => if c.toNat < 0x20 ∨ c = '\\' then none else readString (c :: acc) r

theorem length_of_readString {acc cs s r : List Char} (h : readString acc cs = some (s, r)) :
    r.length < cs.length := by
  fun_induction readString acc cs generalizing s r with
  | case1 => simp at h
  | case2 => simp_all
  | case3 => simp at h
  | case4 => rename_i ih; have := ih h; simp only [List.length_cons]; omega
  | case5 => rename_i ih; have := ih h; simp only [List.length_cons]; omega
  | case6 => simp at h
  | case7 => simp at h
  | case8 => rename_i ih; have := ih h; simp only [List.length_cons]; omega
  | case9 => simp at h
  | case10 => simp at h
  | case11 => rename_i ih; have := ih h; simp only [List.length_cons]; omega

/-- A number as it is written: the digits before the point, those after it, and the exponent with whether it is
negative. -/
structure Numeral where
  negative : Bool
  whole : List Char
  fraction : Option (List Char)
  exponent : Option (Bool × List Char)
  deriving DecidableEq, Repr

/-- At least one digit, and what follows. -/
def readDigits (cs : List Char) : Option (List Char × List Char) :=
  if (cs.takeWhile Char.isDigit).isEmpty then none
  else some (cs.takeWhile Char.isDigit, cs.dropWhile Char.isDigit)

def readFraction : List Char → Option (Option (List Char) × List Char)
  | '.' :: r => (readDigits r).map fun p => (some p.1, p.2)
  | r => some (none, r)

def dropSign : List Char → Bool × List Char
  | '-' :: r => (true, r)
  | '+' :: r => (false, r)
  | r => (false, r)

def readExponent : List Char → Option (Option (Bool × List Char) × List Char)
  | c :: r =>
    if c = 'e' ∨ c = 'E' then
      (readDigits (dropSign r).2).map fun p => (some ((dropSign r).1, p.1), p.2)
    else some (none, c :: r)
  | [] => some (none, [])

/-- A number has no leading zeros, and a point and an exponent mark each need a digit. -/
def readNumeral (cs : List Char) : Option (Numeral × List Char) := do
  let negative := cs.head? == some '-'
  let (whole, r) ← readDigits (if negative then cs.drop 1 else cs)
  if whole.head? = some '0' ∧ 1 < whole.length then none
  let (fraction, r) ← readFraction r
  let (exponent, r) ← readExponent r
  return (⟨negative, whole, fraction, exponent⟩, r)

theorem length_of_readDigits {cs ds r : List Char} (h : readDigits cs = some (ds, r)) :
    r.length < cs.length := by
  unfold readDigits at h
  split at h
  · simp at h
  · rename_i hne
    simp only [Option.some.injEq, Prod.mk.injEq] at h
    have hlen := congrArg List.length (List.takeWhile_append_dropWhile (p := Char.isDigit) (l := cs))
    have hpos : 0 < (cs.takeWhile Char.isDigit).length :=
      List.length_pos_iff.2 (by simpa using hne)
    simp only [List.length_append] at hlen
    rw [← h.2]
    omega

theorem length_of_readFraction {cs r : List Char} {f : Option (List Char)}
    (h : readFraction cs = some (f, r)) : r.length ≤ cs.length := by
  unfold readFraction at h
  split at h
  · obtain ⟨p, hp, he⟩ := Option.map_eq_some_iff.1 h
    have := length_of_readDigits hp
    obtain ⟨-, rfl⟩ := Prod.mk.inj he
    simp only [List.length_cons]
    omega
  · simp_all

theorem length_dropSign (cs : List Char) : (dropSign cs).2.length ≤ cs.length := by
  unfold dropSign
  split <;> simp

theorem length_of_readExponent {cs r : List Char} {e : Option (Bool × List Char)}
    (h : readExponent cs = some (e, r)) : r.length ≤ cs.length := by
  unfold readExponent at h
  split at h
  · rename_i c s
    split at h
    · obtain ⟨p, hp, he⟩ := Option.map_eq_some_iff.1 h
      have := length_of_readDigits hp
      have := length_dropSign s
      obtain ⟨-, rfl⟩ := Prod.mk.inj he
      simp only [List.length_cons]
      omega
    · simp_all
  · simp_all

theorem length_of_readNumeral {cs r : List Char} {n : Numeral}
    (h : readNumeral cs = some (n, r)) : r.length < cs.length := by
  simp only [readNumeral, Option.bind_eq_bind, Option.bind_eq_some_iff] at h
  obtain ⟨⟨whole, r1⟩, h1, h⟩ := h
  have hw := length_of_readDigits h1
  have hs : (if cs.head? == some '-' then cs.drop 1 else cs).length ≤ cs.length := by
    split <;> simp
  dsimp only at h
  split at h
  · simp at h
  · simp only [Option.pure_def, Option.bind_eq_some_iff] at h
    obtain ⟨⟨f, r2⟩, h2, ⟨e, r3⟩, h3, h4⟩ := h
    have hf := length_of_readFraction h2
    have he := length_of_readExponent h3
    obtain ⟨-, rfl⟩ := Prod.mk.inj (Option.some.inj h4)
    dsimp only at he ⊢
    omega

/-- The largest significand that is kept. -/
def maxSignificand : Nat := Nat.pow 2 64 - 1

/-- Takes digits into the significand until the next one does not fit; also returns how many were taken. -/
def absorb (significand taken : Nat) : List Char → Nat × Nat
  | [] => (significand, taken)
  | d :: r =>
    let next := significand * 10 + (d.toNat - '0'.toNat)
    if next ≤ maxSignificand then absorb next (taken + 1) r else (significand, taken)

/-- The exponent of the largest power of ten among the numbers. -/
def topPower : Nat := 308

def powerOfTen (n : Nat) : Option Binary64 := if n ≤ topPower then Binary64.ofNat (Nat.pow 10 n) else none

/-- Division by `10 ^ n`, by the largest power of ten as long as `n` is beyond it. -/
def scaleDown (top x : Binary64) (n : Nat) : Option Binary64 :=
  if n ≤ topPower then (powerOfTen n).bind x.div
  else if x.isZero then some x
  else (x.div top).bind fun y => scaleDown top y (n - topPower)
termination_by n
decreasing_by simp only [topPower] at *; omega

/-- The significand is rounded, then scaled with one more rounding. -/
def ofParts (negative : Bool) (significand : Nat) (exponent : Int) : Option Binary64 := do
  let x ← Binary64.ofNat significand
  let top ← powerOfTen topPower
  let y ←
    if exponent < 0 then scaleDown top x (-exponent).toNat
    else if exponent ≤ topPower then (powerOfTen exponent.toNat).bind x.mul
    else if x.isZero then some x else none
  return if negative then y.neg else y

def Numeral.wholeToken (n : Numeral) (significand : Nat) : Option Token :=
  if !n.negative then some (.int significand)
  else if significand = 0 ∨ Nat.pow 2 63 < significand then
    (Binary64.ofNat significand).map fun x => .float x.neg
  else some (.int (-significand))

/-- An exponent beyond 31 bits is not added up: it gives zero, or the number is out of range. -/
def Numeral.token (n : Numeral) : Option Token :=
  let (significand, taken) := absorb 0 0 n.whole
  let beyond := n.whole.length - taken
  if n.fraction.isNone ∧ n.exponent.isNone ∧ beyond = 0 then n.wholeToken significand
  else
    let (significand, places) := absorb significand 0 (n.fraction.getD [])
    let start : Int := beyond - places
    match n.exponent with
    | none => (ofParts n.negative significand start).map .float
    | some (minus, digits) =>
      let e := Nat.ofDigitChars 10 digits 0
      if e < Nat.pow 2 31 then
        (ofParts n.negative significand (if minus then start - e else start + e)).map .float
      else if significand ≠ 0 ∧ !minus then none
      else some (.float (.zero n.negative))

/-- The tokens of a text, or nothing when some part of it is no token. -/
def tokens (acc : List Token) (cs : List Char) : Option (List Token) :=
  match cs with
  | [] => some acc.reverse
  | c :: r =>
    if isBlank c then tokens acc r
    else
      match c with
      | '\x7b' => tokens (.openBrace :: acc) r
      | '\x7d' => tokens (.closeBrace :: acc) r
      | '[' => tokens (.openBracket :: acc) r
      | ']' => tokens (.closeBracket :: acc) r
      | ',' => tokens (.comma :: acc) r
      | ':' => tokens (.colon :: acc) r
      | '"' =>
        match h : readString [] r with
        | some (s, r') =>
          have := length_of_readString h
          tokens (.str (String.ofList s) :: acc) r'
        | none => none
      | 'n' =>
        match r with
        | 'u' :: 'l' :: 'l' :: r => tokens (.null :: acc) r
        | _ => none
      | 't' =>
        match r with
        | 'r' :: 'u' :: 'e' :: r => tokens (.bool true :: acc) r
        | _ => none
      | 'f' =>
        match r with
        | 'a' :: 'l' :: 's' :: 'e' :: r => tokens (.bool false :: acc) r
        | _ => none
      | c =>
        match h : readNumeral (c :: r) with
        | some (n, r') =>
          have := length_of_readNumeral h
          match n.token with
          | some t => tokens (t :: acc) r'
          | none => none
        | none => none
termination_by cs.length
decreasing_by all_goals simp_all; try omega

end WorkflowCompiler.Json
