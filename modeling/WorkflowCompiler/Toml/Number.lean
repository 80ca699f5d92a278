import WorkflowCompiler.Number.Binary64
import WorkflowCompiler.Toml.Text

/-!
Numbers, dates and times of TOML text. Single underscores may stand between two digits. A decimal number has no
leading zero; whole numbers have 64 bits, and a positive fraction beyond the largest number is malformed.
-/

namespace WorkflowCompiler.Toml

open Text (hexValue)

/-- Digits of a base, at least one, without the underscores between them. -/
def readDigits (isDigit : Char → Bool) : Scan (List Char)
  | c :: '_' :: r =>
    if isDigit c then (readDigits isDigit r).map fun p => (c :: p.1, p.2) else none
  | c :: r =>
    if !isDigit c then none
    else
      match r with
      | d :: _ =>
        if isDigit d then (readDigits isDigit r).map fun p => (c :: p.1, p.2) else some ([c], r)
      | [] => some ([c], [])
  | [] => none

/-- Decimal digits without a leading zero. -/
def readWhole : Scan (List Char)
  | '0' :: r => some (['0'], r)
  | cs => readDigits Char.isDigit cs

def isOctal (c : Char) : Bool := '0' ≤ c && c ≤ '7'

def isBinary (c : Char) : Bool := c == '0' || c == '1'

def valueOf (base : Nat) (digits : List Char) : Nat :=
  digits.foldl (fun n c => n * base + (hexValue c).getD 0) 0

/-- A sign before a number; true is a minus. -/
def dropSign : List Char → Bool × List Char
  | '-' :: r => (true, r)
  | '+' :: r => (false, r)
  | r => (false, r)

def wholeNumber (negative : Bool) (magnitude : Nat) : Option Int :=
  let i : Int := if negative then -magnitude else magnitude
  if -(Nat.pow 2 63) ≤ i ∧ i < Nat.pow 2 63 then some i else none

/-- The exponent of a decimal number, when there is one. -/
def readExponent : Scan (Option Int)
  | c :: r =>
    if c = 'e' ∨ c = 'E' then
      let (minus, r) := dropSign r
      (readDigits Char.isDigit r).map fun p =>
        let e : Int := valueOf 10 p.1
        (some (if minus then -e else e), p.2)
    else some (none, c :: r)
  | [] => some (none, [])

/-- The text by which a binary fraction is shown. -/
def shownFraction (negative : Bool) (digits : List Char) (exponent : Int) : Option String :=
  match Binary64.ofDecimal negative (valueOf 10 digits) exponent with
  | some x => some (String.ofList x.plainText)
  | none => if negative then some "-inf" else none

inductive Number where
  | whole (i : Int)
  /-- A fraction by the text that shows it. -/
  | fraction (shown : String)
  deriving DecidableEq, Repr

/-- A decimal number is a fraction iff it has a point or an exponent. -/
def readDecimal (cs : List Char) : Option (Number × List Char) := do
  let (negative, cs) := dropSign cs
  let (whole, cs) ← readWhole cs
  let (digits, cs) ← match cs with
    | '.' :: r => (readDigits Char.isDigit r).map fun p => (some p.1, p.2)
    | r => some (none, r)
  let (exponent, cs) ← readExponent cs
  match digits, exponent with
  | none, none => (wholeNumber negative (valueOf 10 whole)).map fun i => (.whole i, cs)
  | digits, exponent =>
    let digits := digits.getD []
    (shownFraction negative (whole ++ digits) (exponent.getD 0 - digits.length)).map
      fun shown => (.fraction shown, cs)

def readBased (base : Nat) (isDigit : Char → Bool) (cs : List Char) : Option (Number × List Char) := do
  let (digits, r) ← readDigits isDigit cs
  let i ← wholeNumber false (valueOf base digits)
  return (.whole i, r)

def readNumber (cs : List Char) : Option (Number × List Char) :=
  match cs with
  | '0' :: 'x' :: r => readBased 16 (fun c => (hexValue c).isSome) r
  | '0' :: 'o' :: r => readBased 8 isOctal r
  | '0' :: 'b' :: r => readBased 2 isBinary r
  | cs =>
    let (negative, unsigned) := dropSign cs
    match unsigned with
    | 'i' :: 'n' :: 'f' :: r => some (.fraction (if negative then "-inf" else "inf"), r)
    | 'n' :: 'a' :: 'n' :: r => some (.fraction "NaN", r)
    | _ => readDecimal cs

/-- A number of exactly `n` digits within bounds. -/
def readField (n low high : Nat) (cs : List Char) : Option (Nat × List Char) :=
  let digits := cs.take n
  let v := valueOf 10 digits
  if digits.length = n ∧ digits.all Char.isDigit ∧ low ≤ v ∧ v ≤ high then some (v, cs.drop n)
  else none

def skip (c : Char) : List Char → Option (List Char)
  | d :: r => if d = c then some r else none
  | [] => none

def daysIn (year month : Nat) : Nat :=
  if month = 2 then
    if year % 4 = 0 ∧ (year % 100 ≠ 0 ∨ year % 400 = 0) then 29 else 28
  else if month = 4 ∨ month = 6 ∨ month = 9 ∨ month = 11 then 30
  else 31

/-- What follows a day of the calendar. -/
def afterDate (cs : List Char) : Option (List Char) := do
  let (year, cs) ← readField 4 0 9999 cs
  let cs ← skip '-' cs
  let (month, cs) ← readField 2 1 12 cs
  let cs ← skip '-' cs
  let (_, cs) ← readField 2 1 (daysIn year month) cs
  return cs

/-- What follows a time of the day, which may have a leap second and a fraction of a second. -/
def afterTime (cs : List Char) : Option (List Char) := do
  let (_, cs) ← readField 2 0 23 cs
  let cs ← skip ':' cs
  let (_, cs) ← readField 2 0 59 cs
  let cs ← skip ':' cs
  let (_, cs) ← readField 2 0 60 cs
  match cs with
  | '.' :: r => if (r.takeWhile Char.isDigit).isEmpty then some cs else some (r.dropWhile Char.isDigit)
  | _ => some cs

/-- What follows the offset of a time, if it has one. -/
def afterOffset (cs : List Char) : Option (List Char) :=
  match cs with
  | 'Z' :: r | 'z' :: r => some r
  | '+' :: r | '-' :: r => do
    let (_, r) ← readField 2 0 23 r
    let r ← skip ':' r
    let (_, r) ← readField 2 0 59 r
    return r
  | _ => some cs

/-- What follows a date, a time or both. -/
def afterMoment (cs : List Char) : Option (List Char) :=
  match afterDate cs with
  | none => afterTime cs
  | some r =>
    match r with
    | c :: r' =>
      if c = 'T' ∨ c = 't' ∨ c = ' ' then
        match afterTime r' with
        | some r'' => afterOffset r''
        | none => some r
      else some r
    | [] => some []

end WorkflowCompiler.Toml
