import WorkflowCompiler.Text.Split

/-!
Paths of files as they are written, with a slash between the parts. Two texts can name the same path: empty parts
and dots, except a dot at the beginning, do not count when paths are compared.
-/

namespace WorkflowCompiler

structure Path where
  text : String
  deriving DecidableEq, Repr

inductive Component where
  | root
  /-- A dot at the beginning. -/
  | here
  | up
  | name (s : String)
  deriving DecidableEq, Repr

/-- A text by which components are ordered: first the root, then dots, then names by their code points. -/
def Component.key : Component → String
  | .root => "0"
  | .here => "1"
  | .up => "2"
  | .name s => "3" ++ s

namespace Path

def chars (p : Path) : List Char := p.text.toList

def ofChars (cs : List Char) : Path := ⟨String.ofList cs⟩

def isAbsolute (p : Path) : Bool := p.chars.head? == some '/'

def endsWithSlash (p : Path) : Bool := p.chars.getLast? == some '/'

/-- A path inside another one. An absolute path stays as it is. -/
def join (p q : Path) : Path :=
  if q.isAbsolute then q
  else if p.chars.isEmpty || p.endsWithSlash then ⟨p.text ++ q.text⟩
  else ⟨p.text ++ "/" ++ q.text⟩

/-- The first part, which is empty iff the path is absolute or empty, and the parts after it. -/
def parts (p : Path) : List Char × List (List Char) :=
  match Text.split '/' p.chars with
  | [] => ([], [])
  | first :: rest => (first, rest)

def ofParts (first : List Char) (rest : List (List Char)) : Path :=
  ofChars (first ++ rest.flatMap fun part => '/' :: part)

/-- Whether a part after the first one does not count. -/
def isIdle (part : List Char) : Bool := part == [] || part == ['.']

def dropIdle (parts : List (List Char)) : List (List Char) :=
  (parts.reverse.dropWhile isIdle).reverse

def componentOf (part : List Char) : Component :=
  if part = ['.', '.'] then .up else .name (String.ofList part)

def components (p : Path) : List Component :=
  let (first, rest) := p.parts
  let tail := (rest.filter fun part => !isIdle part).map componentOf
  if p.isAbsolute then .root :: tail
  else if first.isEmpty then tail
  else if first = ['.'] then .here :: tail
  else componentOf first :: tail

/-- Paths are compared by this. -/
def key (p : Path) : List String := p.components.map Component.key

/-- Whether the path names the directory in which relative paths start. -/
def isHere (p : Path) : Bool := p.components == [.here]

/-- The path without its last component. The root has no parent, and neither has the empty path. -/
def parent? (p : Path) : Option Path :=
  let (first, rest) := p.parts
  match dropIdle rest with
  | [] => if first.isEmpty then none else some ⟨""⟩
  | counted =>
    match dropIdle counted.dropLast with
    | [] => if p.isAbsolute then some ⟨"/"⟩ else some (ofParts first [])
    | above => some (ofParts first above)

/-- The last component when it is a name. -/
def fileName? (p : Path) : Option String :=
  match p.components.getLast? with
  | some (.name s) => some s
  | _ => none

/-- A name without its extension, which begins at the last dot. A dot at the beginning begins none. -/
def stem (name : List Char) : List Char :=
  match Text.cutLast '.' name with
  | some ([], _) | none => name
  | some (before, _) => before

/-- Puts another extension in the place of the one that the path has, if it has a file name. -/
def withExtension (extension : String) (p : Path) : Path :=
  match p.fileName? with
  | none => p
  | some name =>
    let (first, rest) := p.parts
    let renamed := stem name.toList ++ '.' :: extension.toList
    match dropIdle rest with
    | [] => ofChars renamed
    | counted => ofParts first (counted.dropLast ++ [renamed])

/-- The path, its parent, the parent of that and so on. -/
def ancestors (p : Path) : List Path := go p.components.length p
where
  go : Nat → Path → List Path
    | 0, p => [p]
    | n + 1, p =>
      match p.parent? with
      | some q => p :: go n q
      | none => [p]

end Path

end WorkflowCompiler
