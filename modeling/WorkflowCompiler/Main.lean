import WorkflowCompiler.CommandLine.Execution

/-!
The program: files on a disk, and the command line.
-/

namespace WorkflowCompiler.Disk

/-- Codes come with either sign. -/
def errorOfCode (code : UInt32) (details : String) : FileError :=
  match code.toInt32.toInt.natAbs with
  | 2 => .notFound
  | 16 => .busy
  | 17 => .alreadyExists
  | 20 => .notADirectory
  | 21 => .isADirectory
  | 36 => .nameTooLong
  | n => .other (details ++ " (os error " ++ toString n ++ ")")

def errorOf : IO.Error → FileError
  | .noFileOrDirectory _ code details | .alreadyExists _ code details
  | .inappropriateType _ code details | .permissionDenied _ code details
  | .invalidArgument _ code details | .resourceExhausted _ code details
  | .resourceBusy code details | .otherError code details => errorOfCode code details
  | e => .other (toString e)

/-- Runs an action and gives its failure as a value. -/
def guarded {α : Type} (act : IO α) : IO (Except FileError α) := do
  match ← act.toBaseIO with
  | .ok a => return .ok a
  | .error e => return .error (errorOf e)

def contents (p : Path) : IO (Except FileError String) := do
  match ← guarded (IO.FS.readBinFile p.text) with
  | .error e => return .error e
  | .ok bytes =>
    match String.fromUTF8? bytes with
    | some text => return .ok text
    | none => return .error (.other "stream did not contain valid UTF-8")

def kind? (p : Path) : IO (Option FileKind) := do
  if p.text.isEmpty then return none
  let here ← IO.currentDir
  match ← (here / p.text).metadata.toBaseIO with
  | .error _ => return none
  | .ok data =>
    match data.type with
    | .dir => return some .directory
    | _ => return some .file

/-- The entries below a directory. One that cannot be read counts as empty. -/
partial def below (p : Path) : IO (List (List String × FileKind)) := do
  let here ← IO.currentDir
  match ← (here / p.text).readDir.toBaseIO with
  | .error _ => return []
  | .ok entries =>
    let names := (entries.toList.map fun e => e.fileName).mergeSort fun a b => decide (¬ b < a)
    let parts ← names.mapM fun name => do
      let child := p.join ⟨name⟩
      match ← kind? child with
      | some .directory =>
        let inner ← below child
        return ([name], FileKind.directory) :: inner.map fun e => (name :: e.1, e.2)
      | some .file => return [([name], .file)]
      | none => return []
    return parts.flatten

def location? (p : Path) : IO (Option Location) := do
  match ← (IO.FS.realPath p.text).toBaseIO with
  | .error _ => return none
  | .ok real => return some (FileTree.names ⟨toString real⟩)

def store : FileStore IO where
  contents := contents
  kind? := kind?
  below := below
  location? := location?
  makeDirectory := fun p => guarded (IO.FS.createDir p.text)
  write := fun p text => guarded (IO.FS.writeFile p.text text)
  rename := fun p q => guarded (IO.FS.rename p.text q.text)

end WorkflowCompiler.Disk

open WorkflowCompiler CommandLine

/-- Carries out a command line. The level of a log is accepted, and there is no log. -/
def main (args : List String) : IO UInt32 := do
  match Invocation.ofArguments args with
  | .error e =>
    let (text, isFault) := e.explain
    if isFault then
      IO.eprintln text
      return 2
    else
      IO.println text
      return 0
  | .ok i =>
    let report ← i.command.run Disk.store
    -- A completion script would come from the library of the argument parser, which is not at hand here.
    IO.print report.out
    IO.eprint report.err
    match report.error with
    | none => return 0
    | some e =>
      IO.eprintln ("error: " ++ e.message)
      return 1
