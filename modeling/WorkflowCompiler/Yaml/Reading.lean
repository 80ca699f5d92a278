import WorkflowCompiler.Decode.Shape
import WorkflowCompiler.Yaml.Node
import WorkflowCompiler.Yaml.Value

/-!
Reading records from YAML documents. The nodes are visited in the order of the text, and aliases are followed
as they come, up to a bound that grows with the document. An error is reported with the path of the value in
which it was found.
-/

namespace WorkflowCompiler.Yaml

inductive ReadError where
  /-- The text is malformed, or its aliases lead too far. -/
  | malformed
  /-- A value was wanted and the stream has none. -/
  | noValue
  | manyDocuments
  /-- The path is added by the innermost value that has one. -/
  | wrong (path : Option String) (error : DecodeError)
  deriving DecidableEq, Repr

def ReadError.message : ReadError → String
  | .malformed => "syntax"
  | .noValue => "EOF while parsing a value"
  | .manyDocuments => "deserializing from YAML containing more than one document is not supported"
  | .wrong path error =>
    match path with
    | none | some "" => error.message
    | some path => path ++ ": " ++ error.message

structure Place where
  document : Document
  path : String
  /-- How many more collections may be entered. -/
  depth : Nat

/-- Readers know their place and count the aliases that were followed. -/
abbrev Reading := ReaderT Place (StateT Nat (Except ReadError))

namespace Reading

def fail {α : Type} (e : DecodeError) : Reading α := throw (.wrong none e)

/-- Adds the path of the present value to an error that has none. -/
def located {α : Type} (r : Reading α) : Reading α := fun p s =>
  match r p s with
  | .error (.wrong none e) => .error (.wrong (some p.path) e)
  | other => other

def childPath (path key : String) : String := if path.isEmpty then key else path ++ "." ++ key

def atKey {α : Type} (key : String) (r : Reading α) : Reading α :=
  ReaderT.adapt (fun p => { p with path := childPath p.path key }) r

def atIndex {α : Type} (i : Nat) (r : Reading α) : Reading α :=
  ReaderT.adapt (fun p => { p with path := p.path ++ "[" ++ toString i ++ "]" }) r

/-- Enters a collection. -/
def entered {α : Type} (r : Reading α) : Reading α := do
  let p ← read
  if p.depth = 0 then throw .malformed
  ReaderT.adapt (fun p => { p with depth := p.depth - 1 }) r

/-- The node itself, or the one that an alias stands for. -/
def resolve : Node → Reading Node
  | .alias anchor => do
    let p ← read
    let count ← get
    set (count + 1)
    if p.document.size * 100 < count + 1 then throw .malformed
    match p.document.target? anchor with
    | some n => return n
    | none => throw .malformed
  | n => return n

/-- Why a node is not what is wanted. -/
def mismatch {α : Type} (expected : String) : Node → Reading α
  | .scalar s tag style =>
    match Value.ofScalar s tag style with
    | .ok v => fail (.invalidType v.found expected)
    | .error e => fail e
  | .sequence .. => fail (.invalidType .sequence expected)
  | .mapping .. => fail (.invalidType .map expected)
  | .void => throw .noValue
  | .alias _ | .broken => throw .malformed

def scalarText (expected : String) (n : Node) : Reading String :=
  located do
    match ← resolve n with
    | .scalar s _ _ => return s
    | n => mismatch expected n

def text : Node → Reading String := scalarText "a string"

/-- A plain scalar is taken by its text, whatever its tag is. -/
def flag (n : Node) : Reading Bool :=
  located do
    let n ← resolve n
    match n with
    | .scalar s tag style =>
      if style = .plain ∨ (style = .literal ∧ tag = some boolTag) then
        match readBool s with
        | some b => return b
        | none => mismatch "a boolean" n
      else mismatch "a boolean" n
    | n => mismatch "a boolean" n

/-- A plain scalar that is empty or null counts as absent, unless it has a tag other than null. -/
def optional {α : Type} (read : Node → Reading α) (n : Node) : Reading (Option α) := do
  let n ← resolve n
  let some_ : Reading (Option α) := do
    let a ← read n
    return some a
  match n with
  | .void => return none
  | .broken => throw .malformed
  | .scalar s tag .plain =>
    match tag with
    | none => if s.isEmpty || isNull s then return none else some_
    | some tag =>
      if tag = nullTag then
        if isNull s then return none else fail (.invalidValue (.string s) "null")
      else some_
  | _ => some_

/-- An empty plain scalar stands for an empty collection. -/
def isEmptyPlain : Node → Bool
  | .void => true
  | .scalar "" _ .plain => true
  | _ => false

def items {α : Type} (read : Node → Reading α) : Nat → List Node → Reading (List α)
  | _, [] => return []
  | i, n :: r => do
    let a ← atIndex i (read n)
    let as ← items read (i + 1) r
    return a :: as

def list {α : Type} (read : Node → Reading α) (n : Node) : Reading (List α) :=
  located do
    let n ← resolve n
    match n with
    | .sequence _ ns => entered (items read 0 ns)
    | n => if isEmptyPlain n then return [] else mismatch "a sequence" n

/-- How paths name the value under a key. -/
def keyName : Node → String
  | .scalar s _ _ => s
  | _ => "?"

def entries {α : Type} (read : Node → Reading α) :
    List (Node × Node) → OrderedMap String α → Reading (OrderedMap String α)
  | [], m => return m
  | (k, v) :: r, m => do
    let key ← text k
    let a ← atKey (keyName k) (read v)
    entries read r (m.insert key a)

def table {α : Type} (read : Node → Reading α) (n : Node) : Reading (OrderedMap String α) :=
  located do
    let n ← resolve n
    match n with
    | .mapping _ es => entered (entries read es .empty)
    | n => if isEmptyPlain n then return .empty else mismatch "a map" n

/-- Passes over a value without following its aliases. -/
def ignore (n : Node) : Reading Unit := if n.isBroken then throw .malformed else pure ()

section Record

variable {σ τ : Type}

def fields (s : Shape Node Reading σ τ) : List (Node × Node) → σ → Reading σ
  | [], parts => return parts
  | (k, v) :: r, parts => do
    let key ← scalarText "field identifier" k
    match s.field? key with
    | some f =>
      if f.isFilled parts then fail (.duplicateField key)
      else
        let parts ← atKey (keyName k) (f.read v parts)
        fields s r parts
    | none =>
      if s.strict then fail (.unknownField key s.fieldNames)
      else
        ignore v
        fields s r parts

def finishRecord (s : Shape Node Reading σ τ) (parts : σ) : Reading τ :=
  match s.finish parts with
  | .ok a => return a
  | .error e => fail e

def record (s : Shape Node Reading σ τ) (n : Node) : Reading τ :=
  located do
    let n ← resolve n
    match n with
    | .mapping _ es => do
      let parts ← entered (fields s es s.start)
      finishRecord s parts
    | n => if isEmptyPlain n then finishRecord s s.start else mismatch s.title n

end Record

/-- A tag of the document's own asks for a choice, which no value of unknown shape can be. -/
def hasOwnTag (tag : Option String) : Bool := tag.any fun t => t.startsWith "!"

def scalarContent (s : String) (tag : Option String) (style : ScalarStyle) : Reading Content :=
  match Value.ofScalar s tag style with
  | .ok .unit => return .unit
  | .ok (.bool b) => return .bool b
  | .ok (.natural n) => return .natural n
  | .ok (.negative _) => return .negative
  | .ok (.wide i) => fail (.invalidType (.wide i) "any value")
  | .ok (.float _) => return .float
  | .ok (.text s) => return .text s
  | .error e => fail e

/-- A value of unknown shape; `depth` collections may be entered. -/
def contentWithin : Nat → Node → Reading Content
  | depth, n => located do
    match ← resolve n with
    | .scalar s tag style =>
      if hasOwnTag tag then throw .malformed else scalarContent s tag style
    | .sequence tag ns =>
      match depth with
      | 0 => throw .malformed
      | depth + 1 =>
        if hasOwnTag tag then throw .malformed
        let _ ← items (contentWithin depth) 0 ns
        return .sequence
    | .mapping tag es =>
      match depth with
      | 0 => throw .malformed
      | depth + 1 =>
        if hasOwnTag tag then throw .malformed
        let es ← es.mapM fun e => do
          let k ← contentWithin depth e.1
          let v ← atKey (keyName e.1) (contentWithin depth e.2)
          return (k, v)
        return .map es
    | .void => return .unit
    | .alias _ | .broken => throw .malformed

def content (n : Node) : Reading Content := do
  let p ← read
  contentWithin p.depth n

def format : Format Node Reading where
  text := text
  flag := flag
  optional := optional
  list := list
  table := table
  record := record
  content := content
  fail := fail

end Reading

/-- At most 128 collections may be nested. -/
def maxDepth : Nat := 128

/-- Reads the one document of a text. What is wrong with a value counts before what is wrong with the text after
it. -/
def readDocument {α : Type} (read : Node → Reading α) (text : String) : Except ReadError α := do
  let d := Document.ofText text
  let (a, _) ← (read d.root).run ⟨d, "", maxDepth⟩ |>.run 0
  if d.isBroken then throw .malformed
  if d.isFollowed then throw .manyDocuments
  return a

end WorkflowCompiler.Yaml
