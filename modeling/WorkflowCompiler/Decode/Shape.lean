import WorkflowCompiler.Decode.Error
import WorkflowCompiler.OrderedMap

/-!
Records described once for all formats. A shape lists the fields of a record with the way to read each; a
format says how texts, flags, lists and records look in its values. Fields are read in the order of the
document, so that the first fault in it is reported, and missing ones are reported last.
-/

namespace WorkflowCompiler

variable {ν : Type} {m : Type → Type} {σ τ α : Type}

/-- One field of a record that is collected in `σ`. -/
structure Field (ν : Type) (m : Type → Type) (σ : Type) where
  name : String
  read : ν → σ → m σ
  isFilled : σ → Bool
  /-- Whether the record can do without it when its fields are given as a row. -/
  hasDefault : Bool

/-- A field given by the place it fills. -/
def Field.of [Monad m] (name : String) (get : σ → Option α) (set : σ → α → σ) (read : ν → m α)
    (hasDefault : Bool) : Field ν m σ where
  name
  read := fun v s => do
    let a ← read v
    return set s a
  isFilled := fun s => (get s).isSome
  hasDefault

structure Shape (ν : Type) (m : Type → Type) (σ τ : Type) where
  /-- How messages call the record. -/
  title : String
  fields : List (Field ν m σ)
  start : σ
  /-- Whether a field that is not listed is refused. -/
  strict : Bool
  finish : σ → Except DecodeError τ

namespace Shape

def field? (s : Shape ν m σ τ) (name : String) : Option (Field ν m σ) :=
  s.fields.find? fun f => f.name == name

def fieldNames (s : Shape ν m σ τ) : List String := s.fields.map Field.name

/-- What a row that is too short is told to be. -/
def rowTitle (s : Shape ν m σ τ) : String :=
  s.title ++ " with " ++ toString s.fields.length ++
    (if s.fields.length = 1 then " element" else " elements")

/-- Takes named members in turn. -/
def readMembers (s : Shape ν (Except DecodeError) σ τ) :
    List (String × ν) → σ → Except DecodeError σ
  | [], parts => .ok parts
  | (k, v) :: r, parts =>
    match s.field? k with
    | some f => do
      if f.isFilled parts then throw (.duplicateField k)
      let parts ← f.read v parts
      readMembers s r parts
    | none => if s.strict then .error (.unknownField k s.fieldNames) else readMembers s r parts

/-- Fields in order; the ones with a default may be left out at the end. Also gives the items that are left. -/
def fillRow (title : String) : Nat → List (Field ν (Except DecodeError) σ) → List ν → σ →
    Except DecodeError (σ × List ν)
  | _, [], items, parts => .ok (parts, items)
  | n, f :: fs, [], parts =>
    if f.hasDefault then fillRow title (n + 1) fs [] parts else .error (.invalidLength n title)
  | n, f :: fs, v :: r, parts => do
    let parts ← f.read v parts
    fillRow title (n + 1) fs r parts

def readRow (s : Shape ν (Except DecodeError) σ τ) (items : List ν) :
    Except DecodeError (σ × List ν) :=
  fillRow s.rowTitle 0 s.fields items s.start

end Shape

def need (name : String) : Option α → Except DecodeError α
  | some a => .ok a
  | none => .error (.missingField name)

/-- A value of unknown shape, read as a whole before anything is chosen from it. -/
inductive Content where
  | unit
  | bool (b : Bool)
  | natural (n : Nat)
  | negative
  | float
  | text (s : String)
  | sequence
  | map (entries : List (Content × Content))

/-- How the values of a format are read. -/
structure Format (ν : Type) (m : Type → Type) where
  text : ν → m String
  flag : ν → m Bool
  optional : {α : Type} → (ν → m α) → ν → m (Option α)
  list : {α : Type} → (ν → m α) → ν → m (List α)
  table : {α : Type} → (ν → m α) → ν → m (OrderedMap String α)
  record : {σ τ : Type} → Shape ν m σ τ → ν → m τ
  content : ν → m Content
  fail : {α : Type} → DecodeError → m α

end WorkflowCompiler
