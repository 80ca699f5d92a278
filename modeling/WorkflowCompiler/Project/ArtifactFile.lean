import WorkflowCompiler.Artifact.Document
import WorkflowCompiler.FileAccess

/-!
Files of artifacts. A document is first written beside its place and then moved there, so that the file is either
the old one or the whole new one.
-/

namespace WorkflowCompiler

/-- Where the artifact of a root goes. -/
def artifactPath (directory : Path) (root : String) : Path := directory.join ⟨root ++ ".plan.json"⟩

inductive SaveError where
  | directory (path : Path) (error : FileError)
  | write (path : Path) (error : FileError)
  | move (source target : Path) (error : FileError)
  deriving DecidableEq, Repr

def SaveError.message : SaveError → String
  | .directory path error => "cannot create dir " ++ path.text ++ ": " ++ error.message
  | .write path error => "cannot write " ++ path.text ++ ": " ++ error.message
  | .move source target error =>
    "cannot rename " ++ source.text ++ " → " ++ target.text ++ ": " ++ error.message

inductive DocumentError where
  | unreadable (path : Path) (error : FileError)
  | notJson (path : Path)
  deriving DecidableEq, Repr

def DocumentError.message : DocumentError → String
  | .unreadable path error => "cannot read " ++ path.text ++ ": " ++ error.message
  | .notJson path => "invalid artifact " ++ path.text

namespace Artifact

/-- Where a document is written before it is moved to its place. -/
def draftPath (path : Path) : Path := path.withExtension "json.tmp"

section

variable {m : Type → Type} [Monad m]

/-- Makes the directory of a path. -/
def makeRoom (S : FileStore m) (path : Path) : m (Except SaveError Unit) := do
  match path.parent? with
  | none => return .ok ()
  | some directory =>
    if directory.text.isEmpty then return .ok ()
    let made ← S.makeDirectories directory
    return made.mapError (.directory directory)

/-- Writes the document of an artifact to a file and gives its fingerprint. -/
def save (S : FileStore m) (path : Path) (a : Artifact) (indented : Bool) :
    m (Except SaveError String) := do
  match ← makeRoom S path with
  | .error e => return .error e
  | .ok () =>
    let draft := draftPath path
    match ← S.write draft (a.fileText indented) with
    | .error e => return .error (.write draft e)
    | .ok () =>
      match ← S.rename draft path with
      | .error e => return .error (.move draft path e)
      | .ok () => return .ok a.fingerprint

end

end Artifact

/-- Reads a document, if there is something at the path. -/
def Json.load {m : Type → Type} [Monad m] (R : FileReader m) (path : Path) :
    m (Except DocumentError (Option Json)) := do
  if ← R.exists? path then
    match ← R.contents path with
    | .error e => return .error (.unreadable path e)
    | .ok text =>
      match Json.parse text with
      | some j => return .ok (some j)
      | none => return .error (.notJson path)
  else return .ok none

end WorkflowCompiler
