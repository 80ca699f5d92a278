import WorkflowCompiler.Decode.Shape
import WorkflowCompiler.Json.Token

/-!
Reading records from JSON values. A record may also be given as a row: its fields in order, without their
names. Values inside a tagged record have been set aside until the tag was known; for them a row that is
too long is reported differently.
-/

namespace WorkflowCompiler.Json

abbrev Decoded := Except DecodeError

/-- Whether a value is read where it stands or has been set aside first. -/
inductive Setting where
  | direct
  | setAside
  deriving DecidableEq, Repr

def found : Json → Found
  | .null => .null
  | .bool b => .bool b
  | .int i => .integer i
  | .float x => .float (String.ofList x.scientificText)
  | .str s => .string s
  | .arr _ => .sequence
  | .obj _ => .map

def wrong {α : Type} (j : Json) (expected : String) : Decoded α :=
  .error (.invalidType j.found expected)

def readText : Json → Decoded String
  | .str s => .ok s
  | j => j.wrong "a string"

def readFlag : Json → Decoded Bool
  | .bool b => .ok b
  | j => j.wrong "a boolean"

/-- A whole number of 64 bits with sign. -/
def readInt : Json → Decoded Int
  | .int i => if i < Nat.pow 2 63 then .ok i else .error (.invalidValue (.integer i) "i64")
  | j => j.wrong "i64"

def readOptional {α : Type} (read : Json → Decoded α) : Json → Decoded (Option α)
  | .null => .ok none
  | j => do
    let a ← read j
    return some a

def readList {α : Type} (read : Json → Decoded α) : Json → Decoded (List α)
  | .arr items => items.mapM read
  | j => j.wrong "a sequence"

def readName (j : Json) : Decoded QualifiedName := do
  let s ← j.readText
  (QualifiedName.parse s).mapError .badName

/-- The members of an object with their values read. -/
def readMembers {α : Type} (read : Json → Decoded α) : Json → Decoded (List (String × α))
  | .obj members => members.mapM fun p => do
    let a ← read p.2
    return (p.1, a)
  | j => j.wrong "a map"

def readTable {α : Type} (read : Json → Decoded α) (j : Json) : Decoded (OrderedMap String α) := do
  let entries ← j.readMembers read
  return OrderedMap.ofList entries

def tooLong (setting : Setting) (length wanted : Nat) : DecodeError :=
  match setting with
  | .direct => .invalidLength length "fewer elements in array"
  | .setAside =>
    .invalidLength length
      (toString wanted ++ (if wanted = 1 then " element" else " elements") ++ " in sequence")

section Record

variable {σ τ : Type}

def readRecord (setting : Setting) (s : Shape Json Decoded σ τ) : Json → Decoded τ
  | .obj members => do
    let parts ← s.readMembers members s.start
    s.finish parts
  | .arr items => do
    let (parts, rest) ← s.readRow items
    if rest.isEmpty then s.finish parts
    else .error (tooLong setting items.length s.fields.length)
  | j => j.wrong s.title

end Record

mutual

def content : Json → Content
  | .null => .unit
  | .bool b => .bool b
  | .int i => if i < 0 then .negative else .natural i.toNat
  | .float _ => .float
  | .str s => .text s
  | .arr _ => .sequence
  | .obj members => .map (contents members)

def contents : List (String × Json) → List (Content × Content)
  | [] => []
  | (k, v) :: r => (.text k, content v) :: contents r

end

def format (setting : Setting) : Format Json Decoded where
  text := readText
  flag := readFlag
  optional := readOptional
  list := readList
  table := readTable
  record := readRecord setting
  content := fun j => .ok j.content
  fail := .error

/-- The value of a choice without data: its name, or an object with that name and nothing under it. -/
def readChoice {α : Type} (setting : Setting) (choices : List (String × α)) (j : Json) :
    Decoded α :=
  let pick (name : String) : Decoded α :=
    match choices.lookup name with
    | some a => .ok a
    | none => .error (.unknownVariant name (choices.map Prod.fst))
  match j with
  | .str name => pick name
  | .obj [(name, v)] => do
    let a ← pick name
    match setting, v with
    | _, .null => return a
    | .setAside, .obj [] => return a
    | _, v => v.wrong "unit"
  | .obj _ => .error (.invalidValue .map "map with a single key")
  | j => j.wrong "string or map"

/-- Why a text that begins with `cs` is no number, and what follows the fault. -/
def faultAt : List Char → String × List Char
  | [] => ("EOF while parsing a value", [])
  | _ :: r => ("invalid number", r)

/-- The first fault in the text of a number without its sign. -/
def numeralFault (cs : List Char) : String × List Char :=
  let whole := cs.takeWhile Char.isDigit
  if whole.isEmpty then faultAt cs
  else if whole.head? = some '0' ∧ 1 < whole.length then ("invalid number", cs.drop 2)
  else
    match cs.dropWhile Char.isDigit with
    | '.' :: r =>
      if (r.takeWhile Char.isDigit).isEmpty then faultAt r
      else faultAt (dropSign ((r.dropWhile Char.isDigit).drop 1)).2
    | r => faultAt (dropSign (r.drop 1)).2

def startsLikeNumber : List Char → Bool
  | [] => false
  | c :: _ => c.isDigit || c == '-'

/-- The number that a key is written as. A key that does not begin like a number, or goes on after it, is none;
other faults are given with the column at which they are seen. -/
def readNumberKey (key : String) : Decoded Int :=
  let cs := key.toList
  let column (rest : List Char) : Nat := key.utf8ByteSize - (String.ofList rest).utf8ByteSize
  if !startsLikeNumber cs then .error .notANumber
  else
    match readNumeral cs with
    | none =>
      let (reason, rest) := numeralFault (if cs.head? = some '-' then cs.drop 1 else cs)
      .error (.badNumber reason (column rest))
    | some (n, rest) =>
      match n.token with
      | some (.int i) =>
        if Nat.pow 2 63 ≤ i then .error (.wrongNumber (.invalidValue (.integer i) "i64") (column rest))
        else if rest.isEmpty then .ok i
        else .error .notANumber
      | some (.float x) =>
        let f : Found := .float (String.ofList x.scientificText)
        .error (.wrongNumber (.invalidType f "i64") (column rest))
      | _ => .error (.badNumber "number out of range" (column rest))

end WorkflowCompiler.Json
