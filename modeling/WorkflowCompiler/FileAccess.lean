import WorkflowCompiler.Path

/-!
What the compiler asks of a file system. Everything that reads or writes files is written against these records, so
that it runs on a tree of files in memory as well as on a disk.
-/

namespace WorkflowCompiler

inductive FileError where
  | notFound
  | busy
  | alreadyExists
  | notADirectory
  | isADirectory
  | nameTooLong
  /-- Any other failure, by its text. -/
  | other (text : String)
  deriving DecidableEq, Repr

def FileError.message : FileError → String
  | .notFound => "No such file or directory (os error 2)"
  | .busy => "Device or resource busy (os error 16)"
  | .alreadyExists => "File exists (os error 17)"
  | .notADirectory => "Not a directory (os error 20)"
  | .isADirectory => "Is a directory (os error 21)"
  | .nameTooLong => "File name too long (os error 36)"
  | .other text => text

inductive FileKind where
  | file
  | directory
  deriving DecidableEq, Repr

/-- The names of directories from the root to a file or directory. -/
abbrev Location := List String

structure FileReader (m : Type → Type) where
  contents : Path → m (Except FileError String)
  /-- What is at a path, if there is something. -/
  kind? : Path → m (Option FileKind)
  /-- All that is below a directory, by the names that lead to it. A directory comes right before what is in it, and
  names are in the order of their code points. -/
  below : Path → m (List (List String × FileKind))
  /-- The one location of what is at a path. -/
  location? : Path → m (Option Location)

structure FileStore (m : Type → Type) extends FileReader m where
  makeDirectory : Path → m (Except FileError Unit)
  write : Path → String → m (Except FileError Unit)
  /-- Moves a file. A file at the second path is replaced. -/
  rename : Path → Path → m (Except FileError Unit)

section

variable {m : Type → Type} [Monad m]

namespace FileReader

def exists? (R : FileReader m) (p : Path) : m Bool := do
  let kind ← R.kind? p
  return kind.isSome

def isFile (R : FileReader m) (p : Path) : m Bool := do
  let kind ← R.kind? p
  return kind == some .file

def isDirectory (R : FileReader m) (p : Path) : m Bool := do
  let kind ← R.kind? p
  return kind == some .directory

end FileReader

namespace FileStore

/-- A directory that is there already is as good as a new one. -/
def settle (S : FileStore m) (p : Path) (e : FileError) : m (Except FileError Unit) := do
  let there ← S.isDirectory p
  return if there then .ok () else .error e

/-- Makes the first of the paths, and before it the ones after it as far as they are missing. -/
def makeFirst (S : FileStore m) : List Path → m (Except FileError Unit)
  | [] => return .ok ()
  | p :: above => do
    if p.text.isEmpty then return .ok ()
    match ← S.makeDirectory p with
    | .ok () => return .ok ()
    | .error .notFound =>
      match ← makeFirst S above with
      | .error e => return .error e
      | .ok () =>
        match ← S.makeDirectory p with
        | .ok () => return .ok ()
        | .error e => S.settle p e
    | .error e => S.settle p e

/-- Makes a directory and the ones that it is in. -/
def makeDirectories (S : FileStore m) (p : Path) : m (Except FileError Unit) :=
  S.makeFirst p.ancestors

end FileStore

end

end WorkflowCompiler
