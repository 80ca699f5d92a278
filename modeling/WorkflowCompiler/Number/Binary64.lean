/-!
Finite binary floating-point numbers with 53 significant bits, as exact integers: a magnitude
`mantissa * 2 ^ exponent` and a sign. Rounding goes to the nearest number, a tie to the even
mantissa, and is done in exact arithmetic on a fraction of naturals.
-/

namespace WorkflowCompiler

structure Binary64 where
  negative : Bool
  mantissa : Nat
  exponent : Int
  deriving DecidableEq, Repr

namespace Binary64

/-- The exponent of the smallest positive number. -/
def minExponent : Int := -1074

/-- The exponent of the largest numbers. -/
def maxExponent : Int := 971

/-- The least mantissa with all 53 bits. -/
def leastFull : Nat := Nat.pow 2 52

def zero (negative : Bool) : Binary64 := ⟨negative, 0, minExponent⟩

def isZero (x : Binary64) : Bool := x.mantissa == 0

def neg (x : Binary64) : Binary64 := { x with negative := !x.negative }

/-- The magnitude of `x` as a fraction. -/
def ratio (x : Binary64) : Nat × Nat :=
  (x.mantissa * Nat.pow 2 x.exponent.toNat, Nat.pow 2 (-x.exponent).toNat)

/-- The natural number next to `num / den`; a tie goes to the even one. -/
def roundDiv (num den : Nat) : Nat :=
  let q := num / den
  let r := 2 * (num % den)
  if r < den then q else if den < r then q + 1 else if q % 2 = 0 then q else q + 1

/-- `num / (den * 2 ^ e)` as a fraction. -/
def scaled (num den : Nat) (e : Int) : Nat × Nat :=
  (num * Nat.pow 2 (-e).toNat, den * Nat.pow 2 e.toNat)

/-- The number nearest to `num / den`, or nothing when that is beyond the largest one. -/
def ofRatio (negative : Bool) (num den : Nat) : Option Binary64 :=
  if num = 0 ∨ den = 0 then some (zero negative)
  else
    let low : Int := (num.log2 : Int) - den.log2 - 53
    let fits (e : Int) : Bool := let (n, d) := scaled num den e; n / d < 2 * leastFull
    let e := if fits low then low else if fits (low + 1) then low + 1 else low + 2
    let e := max e minExponent
    let (n, d) := scaled num den e
    let m := roundDiv n d
    let (m, e) := if m = 2 * leastFull then (leastFull, e + 1) else (m, e)
    if e > maxExponent then none else some ⟨negative, m, e⟩

def ofNat (n : Nat) : Option Binary64 := ofRatio false n 1

def mul (x y : Binary64) : Option Binary64 :=
  ofRatio (x.negative != y.negative) (x.ratio.1 * y.ratio.1) (x.ratio.2 * y.ratio.2)

def div (x y : Binary64) : Option Binary64 :=
  ofRatio (x.negative != y.negative) (x.ratio.1 * y.ratio.2) (x.ratio.2 * y.ratio.1)

/-- The number nearest to `digits * 10 ^ exponent`. Far outside the range nothing is computed. -/
def ofDecimal (negative : Bool) (digits : Nat) (exponent : Int) : Option Binary64 :=
  if digits = 0 then some (zero negative)
  else
    let size : Int := (Nat.toDigits 10 digits).length + exponent
    if size > 400 then none
    else if size < -400 then some (zero negative)
    else ofRatio negative (digits * Nat.pow 10 exponent.toNat) (Nat.pow 10 (-exponent).toNat)

/-- A decimal number `digits * 10 ^ exponent`. -/
structure Decimal where
  digits : Nat
  exponent : Int
  deriving DecidableEq, Repr

/-- The largest `k` with `10 ^ k ≤ num / den`, for a positive fraction. -/
def log10 (num den : Nat) : Int :=
  if den ≤ num then ((Nat.toDigits 10 (num / den)).length : Int) - 1
  else
    let n := (Nat.toDigits 10 (den / num)).length
    if den = num * Nat.pow 10 (n - 1) then -((n : Int) - 1) else -(n : Int)

/-- The reals that round to `mantissa * 2 ^ exponent`, in quarters of `2 ^ exponent`. Below a power of two
the next smaller number is only half as far away. -/
def quarters (x : Binary64) : Nat × Nat :=
  (4 * x.mantissa - (if x.mantissa = leastFull ∧ x.exponent ≠ minExponent then 1 else 2),
    4 * x.mantissa + 2)

/-- Whether `d` rounds to the magnitude of `x`. An end of the interval does iff the mantissa is even. -/
def readsBack (x : Binary64) (d : Decimal) : Bool :=
  let num := d.digits * Nat.pow 10 d.exponent.toNat * Nat.pow 2 (-x.exponent).toNat * 4
  let den := Nat.pow 10 (-d.exponent).toNat * Nat.pow 2 x.exponent.toNat
  let (lo, hi) := x.quarters
  if x.mantissa % 2 = 0 then lo * den ≤ num && num ≤ hi * den else lo * den < num && num < hi * den

/-- Twice the value minus the sum of its lower and upper neighbour decides which one is nearer. -/
def nearer (x : Binary64) (lower upper : Decimal) : Decimal :=
  let (n, d) := x.ratio
  let p := Nat.pow 10 lower.exponent.toNat
  let q := Nat.pow 10 (-lower.exponent).toNat
  if 2 * n * q < (lower.digits + upper.digits) * p * d then lower else upper

/-- The decimal with at most `n` digits that is nearest to `x`, if it reads back as `x`. -/
def onGrid (x : Binary64) (n : Nat) : Option Decimal :=
  let (num, den) := x.ratio
  let k := log10 num den - n + 1
  let low := num * Nat.pow 10 (-k).toNat / (den * Nat.pow 10 k.toNat)
  let lower : Decimal := ⟨low, k⟩
  let upper : Decimal := ⟨low + 1, k⟩
  match x.readsBack lower, x.readsBack upper with
  | true, true => some (x.nearer lower upper)
  | true, false => some lower
  | false, true => some upper
  | false, false => none

/-- The decimal with the fewest digits that reads back as the magnitude of `x`, and the nearest of
those. Seventeen digits are always enough. -/
def shortest (x : Binary64) : Decimal :=
  if x.isZero then ⟨0, 0⟩
  else ((List.range 17).findSome? fun n => x.onGrid (n + 1)).getD ⟨0, 0⟩

/-- Drops the zeros at the end of the digits. -/
def Decimal.trim (d : Decimal) : List Char × Int :=
  let cs := Nat.toDigits 10 d.digits
  let kept := (cs.reverse.dropWhile (· == '0')).reverse
  (if kept.isEmpty then ['0'] else kept, d.exponent + ((cs.length - kept.length : Nat) : Int))

/-- Digits with a decimal point and at least one digit on both sides of it. The digit before the point is
worth `10 ^ exponent` where `exponent` belongs to the last digit. -/
def positional (digits : List Char) (exponent : Int) : List Char :=
  if 0 ≤ exponent then digits ++ List.replicate exponent.toNat '0' ++ ['.', '0']
  else
    let places := (-exponent).toNat
    if places < digits.length then
      digits.take (digits.length - places) ++ '.' :: digits.drop (digits.length - places)
    else ['0', '.'] ++ List.replicate (places - digits.length) '0' ++ digits

/-- Every magnitude is written positionally. -/
def plainText (x : Binary64) : List Char :=
  let (digits, e) := x.shortest.trim
  let body := if x.isZero then ['0', '.', '0'] else positional digits e
  if x.negative then '-' :: body else body

/-- Positional while the leading digit is worth between `10 ^ -5` and `10 ^ 15`, else one digit before the
point and a signed exponent. -/
def scientificText (x : Binary64) : List Char :=
  let (digits, e) := x.shortest.trim
  let lead : Int := e + digits.length - 1
  let body :=
    if x.isZero then ['0', '.', '0']
    else if -5 ≤ lead ∧ lead ≤ 15 then positional digits e
    else
      let fraction := digits.drop 1
      digits.take 1 ++ (if fraction.isEmpty then [] else '.' :: fraction) ++
        'e' :: (if lead < 0 then '-' else '+') :: Nat.toDigits 10 lead.natAbs
  if x.negative then '-' :: body else body

end Binary64

end WorkflowCompiler
