import WorkflowCompiler.FileAccess
import WorkflowCompiler.OrderedMap

/-!
A tree of files in memory. Every file and directory has a location; a path is followed from the root or from the
current directory, name by name, and each name but the last must lead to a directory.
-/

namespace WorkflowCompiler

inductive Entry where
  | directory
  | file (text : String)
  deriving DecidableEq, Repr

def Entry.kind : Entry → FileKind
  | .directory => .directory
  | .file _ => .file

structure FileTree where
  entries : SortedMap Location Entry
  /-- Where relative paths start. -/
  current : Location
  deriving DecidableEq

namespace FileTree

/-- The root, which is always there, has no entry of its own. -/
def entry? (t : FileTree) (l : Location) : Option Entry :=
  if l = [] then some .directory else t.entries.get? l

/-- The text of a regular file. -/
def file? (t : FileTree) (l : Location) : Option String :=
  match t.entry? l with
  | some (.file text) => some text
  | _ => none

def put (t : FileTree) (l : Location) (e : Entry) : FileTree :=
  { t with entries := t.entries.insert l e }

def erase (t : FileTree) (l : Location) : FileTree :=
  { t with entries := ⟨t.entries.entries.filter fun e => e.1 ≠ l, t.entries.increasing.filter _⟩ }

/-- An empty directory in which relative paths start. -/
def fresh (current : String) : FileTree :=
  FileTree.put ⟨.empty, [current]⟩ [current] .directory

/-- How long a name may be, in bytes. -/
def maxName : Nat := 255

/-- Goes one name further. -/
def step (t : FileTree) (l : Location) (name : String) : Except FileError Location :=
  match t.entry? l with
  | none => .error .notFound
  | some (.file _) => .error .notADirectory
  | some .directory =>
    if name = "." then .ok l
    else if name = ".." then .ok l.dropLast
    else if maxName < name.utf8ByteSize then .error .nameTooLong
    else if (t.entry? (l ++ [name])).isSome then .ok (l ++ [name])
    else .error .notFound

def walk (t : FileTree) (l : Location) (names : List String) : Except FileError Location :=
  names.foldlM t.step l

/-- The names in a path, dots included. -/
def names (p : Path) : List String :=
  ((Text.split '/' p.chars).filter fun part => !part.isEmpty).map String.ofList

def startOf (t : FileTree) (p : Path) : Location := if p.isAbsolute then [] else t.current

/-- Where a path leads. After a slash at its end only a directory will do, and the empty path leads nowhere. -/
def locate (t : FileTree) (p : Path) : Except FileError Location := do
  if p.text.isEmpty then throw .notFound
  let l ← t.walk (t.startOf p) (names p)
  match t.entry? l with
  | some (.file _) => if p.endsWithSlash then throw .notADirectory else return l
  | _ => return l

/-- The directory of the last name of a path and that name, which is missing for the root. -/
def target (t : FileTree) (p : Path) : Except FileError (Location × Option String) := do
  if p.text.isEmpty then throw .notFound
  let l ← t.walk (t.startOf p) (names p).dropLast
  match t.entry? l with
  | some .directory => return (l, (names p).getLast?)
  | some (.file _) => throw .notADirectory
  | none => throw .notFound

def isDots (name : String) : Bool := name == "." || name == ".."

/-- The location that a last name stands for. -/
def child (l : Location) (name : String) : Except FileError Location :=
  if maxName < name.utf8ByteSize then .error .nameTooLong else .ok (l ++ [name])

def contents (t : FileTree) (p : Path) : Except FileError String := do
  let l ← t.locate p
  match t.entry? l with
  | some (.file text) => return text
  | some .directory => throw .isADirectory
  | none => throw .notFound

def kind? (t : FileTree) (p : Path) : Option FileKind :=
  match t.locate p with
  | .ok l => (t.entry? l).map Entry.kind
  | .error _ => none

/-- The entries below a location, without the names that lead to it. -/
def descendants (t : FileTree) (l : Location) : List (Location × Entry) :=
  t.entries.entries.filterMap fun e =>
    if l.isPrefixOf e.1 ∧ e.1 ≠ l then some (e.1.drop l.length, e.2) else none

def below (t : FileTree) (p : Path) : List (List String × FileKind) :=
  match t.locate p with
  | .ok l => (t.descendants l).map fun e => (e.1, e.2.kind)
  | .error _ => []

def makeDirectory (t : FileTree) (p : Path) : Except FileError FileTree := do
  match ← t.target p with
  | (_, none) => throw .alreadyExists
  | (l, some name) =>
    if isDots name then throw .alreadyExists
    let l ← child l name
    if (t.entry? l).isSome then throw .alreadyExists
    return t.put l .directory

/-- The location at which a path lets a file be written. -/
def writable (t : FileTree) (p : Path) : Except FileError Location := do
  match ← t.target p with
  | (_, none) => throw .isADirectory
  | (l, some name) =>
    if p.endsWithSlash ∨ isDots name then throw .isADirectory
    let l ← child l name
    match t.entry? l with
    | some .directory => throw .isADirectory
    | _ => return l

def write (t : FileTree) (p : Path) (text : String) : Except FileError FileTree := do
  let l ← t.writable p
  return t.put l (.file text)

/-- Moves a file over another file or to a place that is free. -/
def rename (t : FileTree) (p q : Path) : Except FileError FileTree := do
  let (lp, np) ← t.target p
  let (lq, nq) ← t.target q
  match np, nq with
  | some np, some nq =>
    if isDots np ∨ isDots nq then throw .busy
    let lp ← child lp np
    let lq ← child lq nq
    match t.entry? lp, t.entry? lq with
    | none, _ => throw .notFound
    | some .directory, _ => throw .isADirectory
    | some (.file text), other =>
      if p.endsWithSlash ∨ q.endsWithSlash then throw .notADirectory
      if other = some .directory then throw .isADirectory
      return (t.erase lp).put lq (.file text)
  | _, _ => throw .busy

def reader (t : FileTree) : FileReader Id where
  contents := t.contents
  kind? := t.kind?
  below := t.below
  location? := fun p => (t.locate p).toOption

/-- Runs a change. In memory nothing breaks off: a change that fails leaves the tree as it was. -/
def attempt (change : FileTree → Except FileError FileTree) : StateM FileTree (Except FileError Unit) :=
  fun t =>
    match change t with
    | .ok t' => (.ok (), t')
    | .error e => (.error e, t)

def store : FileStore (StateM FileTree) where
  contents := fun p t => (t.contents p, t)
  kind? := fun p t => (t.kind? p, t)
  below := fun p t => (t.below p, t)
  location? := fun p t => ((t.locate p).toOption, t)
  makeDirectory := fun p => attempt fun t => t.makeDirectory p
  write := fun p text => attempt fun t => t.write p text
  rename := fun p q => attempt fun t => t.rename p q

end FileTree

end WorkflowCompiler
