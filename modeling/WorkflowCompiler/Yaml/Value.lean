import WorkflowCompiler.Decode.Error
import WorkflowCompiler.Number.Binary64
import WorkflowCompiler.Yaml.Token

/-!
What the text of a scalar means when nothing says which type is wanted: null, a boolean, a number or just a
text. Digits after a leading zero are a text, and so is a decimal number beyond the largest one.
-/

namespace WorkflowCompiler.Yaml

inductive Value where
  | unit
  | bool (b : Bool)
  | natural (n : Nat)
  /-- A number that is written with a minus sign. -/
  | negative (magnitude : Nat)
  | wide (i : Int)
  | float (shown : String)
  | text (s : String)
  deriving DecidableEq, Repr

def Value.found : Value → Found
  | .unit => .unit
  | .bool b => .bool b
  | .natural n => .integer n
  | .negative n => .integer (-n)
  | .wide i => .wide i
  | .float shown => .float shown
  | .text s => .string s

def isNull (s : String) : Bool := s == "~" || s == "null" || s == "Null" || s == "NULL"

def readBool (s : String) : Option Bool :=
  if s == "true" || s == "True" || s == "TRUE" then some true
  else if s == "false" || s == "False" || s == "FALSE" then some false
  else none

def digitValue (base : Nat) (c : Char) : Option Nat :=
  let v :=
    if '0' ≤ c ∧ c ≤ '9' then c.toNat - '0'.toNat
    else if 'a' ≤ c ∧ c ≤ 'f' then c.toNat - 'a'.toNat + 10
    else if 'A' ≤ c ∧ c ≤ 'F' then c.toNat - 'A'.toNat + 10
    else base
  if v < base then some v else none

/-- A number written with digits of a base, at least one. -/
def readDigits (base : Nat) (cs : List Char) : Option Nat :=
  if cs.isEmpty then none
  else do
    let vs ← cs.mapM (digitValue base)
    return vs.foldl (fun n v => n * base + v) 0

/-- A base mark and digits of that base. -/
def readBased : List Char → Option Nat
  | '0' :: 'x' :: r => readDigits 16 r
  | '0' :: 'o' :: r => readDigits 8 r
  | '0' :: 'b' :: r => readDigits 2 r
  | _ => none

def dropPlus : List Char → List Char
  | '+' :: r => r
  | cs => cs

/-- A zero followed by more digits, and by nothing else. -/
def hasLeadingZero (cs : List Char) : Bool :=
  let body := match cs with
    | '-' :: r => r
    | cs => dropPlus cs
  match body with
  | '0' :: r => !r.isEmpty && r.all Char.isDigit
  | _ => false

def readNatural (cs : List Char) : Option Nat :=
  match readBased (dropPlus cs) with
  | some n => some n
  | none => if hasLeadingZero cs then none else readDigits 10 (dropPlus cs)

/-- The magnitude of a number with a minus sign. -/
def readNegative : List Char → Option Nat
  | '-' :: r =>
    match readBased r with
    | some n => some n
    | none => if hasLeadingZero r then none else readDigits 10 r
  | _ => none

/-- Integers of 64 bits, and beyond them up to 128 bits. -/
def readInteger (cs : List Char) : Option Value :=
  match readNatural cs, readNegative cs with
  | some n, _ =>
    if n < Nat.pow 2 64 then some (.natural n) else if n < Nat.pow 2 128 then some (.wide n) else none
  | none, some n =>
    if n ≤ Nat.pow 2 63 then some (.negative n) else if n ≤ Nat.pow 2 127 then some (.wide (-n)) else none
  | none, none => none

/-- A decimal number with a digit before or after the point, and maybe an exponent. -/
def readDecimal (cs : List Char) : Option Binary64 := do
  let (negative, cs) := match cs with
    | '-' :: r => (true, r)
    | cs => (false, cs)
  let whole := cs.takeWhile Char.isDigit
  let cs := cs.dropWhile Char.isDigit
  let (fraction, cs) := match cs with
    | '.' :: r => (r.takeWhile Char.isDigit, r.dropWhile Char.isDigit)
    | cs => ([], cs)
  if whole.isEmpty ∧ fraction.isEmpty then none
  let e : Int ← match cs with
    | [] => some 0
    | c :: r =>
      if c = 'e' ∨ c = 'E' then
        let (minus, r) := match r with
          | '-' :: r => (true, r)
          | '+' :: r => (false, r)
          | r => (false, r)
        if r.isEmpty ∨ !r.all Char.isDigit then none
        else some (if minus then -(Nat.ofDigitChars 10 r 0 : Int) else Nat.ofDigitChars 10 r 0)
      else none
  Binary64.ofDecimal negative (Nat.ofDigitChars 10 (whole ++ fraction) 0) (e - fraction.length)

/-- Infinities and not-a-number have spellings of their own. -/
def readFloat (cs : List Char) : Option String :=
  let unsigned := dropPlus cs
  let isInfinity (cs : List Char) : Bool :=
    cs == ".inf".toList || cs == ".Inf".toList || cs == ".INF".toList
  if cs.head? = some '+' ∧ (unsigned.head? = some '+' ∨ unsigned.head? = some '-') then none
  else if isInfinity unsigned then some "inf"
  else if cs.head? = some '-' ∧ isInfinity (cs.drop 1) then some "-inf"
  else if cs = ".nan".toList ∨ cs = ".NaN".toList ∨ cs = ".NAN".toList then some "NaN"
  else (readDecimal unsigned).map fun x => String.ofList x.plainText

/-- The meaning of a plain text without a tag. -/
def Value.ofPlain (s : String) : Value :=
  let cs := s.toList
  if s.isEmpty || isNull s then .unit
  else
    match readBool s with
    | some b => .bool b
    | none =>
      match readInteger cs with
      | some v => v
      | none =>
        if hasLeadingZero cs then .text s
        else
          match readFloat cs with
          | some shown => .float shown
          | none => .text s

def boolTag : String := "tag:yaml.org,2002:bool"
def intTag : String := "tag:yaml.org,2002:int"
def floatTag : String := "tag:yaml.org,2002:float"
def nullTag : String := "tag:yaml.org,2002:null"

/-- The meaning of a scalar. A tag of a basic type asks for a text of that type; a tag of the document's own does
not matter. -/
def Value.ofScalar (s : String) (tag : Option String) (style : ScalarStyle) :
    Except DecodeError Value :=
  let refuse (expected : String) : Except DecodeError Value :=
    .error (.invalidValue (.string s) expected)
  match tag with
  | none => .ok (if style = .plain then .ofPlain s else .text s)
  | some tag =>
    if tag = boolTag then
      match readBool s with
      | some b => .ok (.bool b)
      | none => refuse "a boolean"
    else if tag = intTag then
      match readInteger s.toList with
      | some v => .ok v
      | none => refuse "an integer"
    else if tag = floatTag then
      match readFloat s.toList with
      | some shown => .ok (.float shown)
      | none => refuse "a float"
    else if tag = nullTag then
      if isNull s then .ok .unit else refuse "null"
    else .ok (if tag.startsWith "!" ∧ style = .plain then .ofPlain s else .text s)

end WorkflowCompiler.Yaml
