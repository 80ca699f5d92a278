import WorkflowCompiler.FileAccess
import WorkflowCompiler.Toml.Reading

/-!
The configuration of a project: where candidate sources are looked for and where artifacts go. Paths in a
configuration file are relative to the directory of the file.
-/

namespace WorkflowCompiler

structure Config where
  /-- Patterns of candidate source files. -/
  paths : List String := []
  outputDir : Path := ⟨"build"⟩
  /-- Whether artifacts are indented. -/
  pretty : Bool := true
  /-- What relative paths start from. -/
  baseDir : Path := ⟨""⟩
  deriving DecidableEq, Repr

namespace Config

/-- The name of a configuration file that is found by itself. -/
def fileName : String := "flowplan.toml"

def outputPath (c : Config) : Path := c.baseDir.join c.outputDir

/-- The patterns of the configuration, then the others as they are. -/
def patterns (c : Config) (others : List String) : List String :=
  c.paths.map (fun p => (c.baseDir.join ⟨p⟩).text) ++ others

open Toml (Decoded Value)

structure OutputParts where
  dir : Option String := none
  pretty : Option Bool := none

def sourcesShape : Shape Value Decoded (Option (List String)) (List String) where
  title := "struct SourcesConfig"
  fields := [.of "paths" id (fun _ a => some a) (Value.readList (Value.readText "a string")) true]
  start := none
  strict := true
  finish := fun p => .ok (p.getD [])

def outputShape : Shape Value Decoded OutputParts OutputParts where
  title := "struct OutputConfig"
  fields := [
    .of "dir" OutputParts.dir (fun p a => { p with dir := a }) (Value.readText "path string") true,
    .of "pretty" OutputParts.pretty (fun p a => { p with pretty := a }) Value.readFlag true]
  start := {}
  strict := true
  finish := .ok

structure Parts where
  sources : Option (List String) := none
  output : Option OutputParts := none

def finish (p : Parts) : Decoded Config :=
  let output := p.output.getD {}
  .ok {
    paths := p.sources.getD []
    outputDir := ⟨output.dir.getD "build"⟩
    pretty := output.pretty.getD true }

def shape : Shape Value Decoded Parts Config where
  title := "struct CompilerConfig"
  fields := [
    .of "sources" Parts.sources (fun p a => { p with sources := a })
      (Value.readRecord sourcesShape) true,
    .of "output" Parts.output (fun p a => { p with output := a }) (Value.readRecord outputShape) true]
  start := {}
  strict := true
  finish

end Config

inductive ConfigError where
  /-- The text is no TOML document. -/
  | malformed
  | wrong (error : DecodeError)
  | unreadable (path : Path) (error : FileError)
  /-- The fault is in a file. -/
  | inFile (path : Path) (error : ConfigError)
  deriving DecidableEq, Repr

/-- A description that takes more than one line is not given. -/
def ConfigError.message : ConfigError → String
  | .malformed => "TOML parse error: syntax"
  | .wrong error =>
    "TOML parse error: " ++ (if error.message.contains '\n' then "syntax" else error.message)
  | .unreadable path error => "failed to read " ++ path.text ++ ": " ++ error.message
  | .inFile path error => path.text ++ ": " ++ error.message

namespace Config

def ofText (text : String) : Except ConfigError Config :=
  match Toml.read text with
  | none => .error .malformed
  | some members => (Toml.Value.readRecord shape (.table .declared members)).mapError .wrong

section

variable {m : Type → Type} [Monad m]

/-- Reads a configuration file. -/
def load (R : FileReader m) (path : Path) : m (Except ConfigError Config) := do
  match ← R.contents path with
  | .error e => return .error (.unreadable path e)
  | .ok text =>
    match ofText text with
    | .error e => return .error (.inFile path e)
    | .ok c => return .ok { c with baseDir := path.parent?.getD ⟨""⟩ }

/-- The given file; without one the file in the current directory, and without that the defaults. -/
def loadOrDefault (R : FileReader m) (given : Option Path) : m (Except ConfigError Config) := do
  match given with
  | some path => load R path
  | none =>
    if ← R.exists? ⟨fileName⟩ then load R ⟨fileName⟩ else return .ok {}

end

end Config

end WorkflowCompiler
