import WorkflowCompiler.Toml.Value

/-!
TOML documents. A document is a list of statements: headers, which open a table, and values under keys in the
open table. The members of a table are in the order in which they came; a table that was mentioned before its header
moves to the place of the header.
-/

namespace WorkflowCompiler.Toml

inductive Statement where
  /-- Opens a table. -/
  | header (path : List String)
  /-- Opens one more of the tables that share a header. -/
  | another (path : List String)
  | assign (key : List String) (v : Value)

/-- Reads a statement at the beginning of a line that holds one. -/
def readStatement (cs : List Char) : Option (Statement × List Char) :=
  match cs with
  | '[' :: '[' :: r => do
    let (path, r) ← readKey r
    let r ← skip ']' r
    let r ← skip ']' r
    let r ← endOfLine r
    return (.another path, r)
  | '[' :: r => do
    let (path, r) ← readKey r
    let r ← skip ']' r
    let r ← endOfLine r
    return (.header path, r)
  | cs => do
    let ((key, v), r) ← readPair (readValue maxLevels) cs
    let r ← endOfLine r
    return (.assign key v, r)

/-- The statements of a text. -/
def statements (cs : List Char) : Option (List Statement) :=
  match dropBlanks cs with
  | [] => some []
  | c :: r =>
    if c = '#' ∨ c = '\n' ∨ c = '\r' then
      match endOfLine (c :: r) with
      | some r' => if r'.length < cs.length then statements r' else none
      | none => none
    else
      match readStatement (c :: r) with
      | some (s, r') => if r'.length < cs.length then (statements r').map (s :: ·) else none
      | none => none
termination_by cs.length

/-- Opens a table in the table that will hold it. One that was only implied goes on at the end; any other must be
new. -/
def declare (key : String) (ms : Members) : Option Members :=
  match ms.lookup key with
  | none => some (ms ++ [(key, .table .declared [])])
  | some (.table .implied inner) =>
    some ((ms.filter fun e => e.1 ≠ key) ++ [(key, .table .declared inner)])
  | some _ => none

/-- Opens one more of the tables under a key. -/
def declareAnother (key : String) (ms : Members) : Option Members :=
  match ms.lookup key with
  | none => some (ms ++ [(key, .tables [[]])])
  | some (.tables items) =>
    some (ms.map fun e => if e.1 = key then (key, .tables (items ++ [[]])) else e)
  | some _ => none

/-- Changes the table at the path of a header. -/
def Members.at (path : List String) (act : Members → Option Members) (ms : Members) :
    Option Members :=
  ms.change .implied (fun _ => act) .declared path

/-- The members of the document and the path of the open table after a statement. -/
def Statement.apply : Statement → Members × List String → Option (Members × List String)
  | .header path, (ms, _) => do
    let key ← path.getLast?
    let ms ← ms.at path.dropLast (declare key)
    return (ms, path)
  | .another path, (ms, _) => do
    let key ← path.getLast?
    let ms ← ms.at path.dropLast (declareAnother key)
    return (ms, path)
  | .assign key v, (ms, here) => do
    let last ← key.getLast?
    let ms ← ms.at here fun ms => ms.assign key.dropLast last v
    return (ms, here)

/-- The members of the document that a text holds, or nothing when it is malformed. A byte order mark at its beginning
does not count. -/
def read (text : String) : Option Members := do
  let cs := match text.toList with
    | '\ufeff' :: r => r
    | cs => cs
  let ss ← statements cs
  let (ms, _) ← ss.foldlM (fun state s => s.apply state) ([], [])
  return ms

end WorkflowCompiler.Toml
