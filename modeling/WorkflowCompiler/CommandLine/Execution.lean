import WorkflowCompiler.Artifact
import WorkflowCompiler.CommandLine.Command
import WorkflowCompiler.CommandLine.Listing
import WorkflowCompiler.FileTree
import WorkflowCompiler.Project.ArtifactFile
import WorkflowCompiler.Project.Sources
import WorkflowCompiler.Project.Template
import WorkflowCompiler.Source.Schema

/-!
What the commands do. A command first reads what it needs and settles what is left to do; only then are files written.
-/

namespace WorkflowCompiler.CommandLine

inductive CommandError where
  | template (error : Template.Error)
  | load (error : LoadError)
  | compile (error : CompileError)
  | save (error : SaveError)
  | document (error : DocumentError)
  | verify (error : VerifyError)
  /-- There is no artifact at the path. -/
  | missing (path : Path)
  /-- A source has problems, as many as given. -/
  | invalid (count : Nat)
  deriving DecidableEq, Repr

def CommandError.message : CommandError → String
  | .template error => error.message
  | .load error => error.message
  | .compile error => error.message
  | .save error => error.message
  | .document error => error.message
  | .verify error => error.message
  | .missing path => path.text ++ " not found"
  | .invalid count => toString count ++ " validation error(s)"

/-- What a command shows and how it ends. -/
structure Report where
  out : String := ""
  err : String := ""
  /-- The shell for which the completion script of the argument parser is shown. -/
  script : Option Shell := none
  error : Option CommandError := none
  deriving DecidableEq, Repr

/-- What is left to do when everything has been read. -/
inductive Work where
  | done (report : Report)
  | create (directory : Path)
  | save (path : Path) (name : QualifiedName) (a : Artifact) (indented : Bool)

def Work.fail (e : CommandError) : Work := .done { error := some e }

def Work.print (text : String) : Work := .done { out := text }

/-- Problems are shown one by one; without any, the source must also lower. -/
def validate (path : Path) (s : Source) : Report :=
  match s.problems with
  | [] =>
    let plan := do
      let e ← s.toExecutable path.text
      let p ← e.plan
      return (e, p)
    match plan with
    | .error e => { error := some (.compile e) }
    | .ok (e, p) =>
      { out := line ("OK: " ++ e.kind ++ " " ++ e.name.text ++ " (" ++ toString p.size ++
          " instructions)") }
  | problems =>
    { err := String.join (problems.map fun p => line ("  - " ++ p.message))
      error := some (.invalid problems.length) }

def checkDocument (path : Path) : Option Json → Report
  | none => { error := some (.missing path) }
  | some j =>
    match j.verify with
    | .error e => { error := some (.verify e) }
    | .ok fingerprint => { out := line ("OK: " ++ path.text ++ " " ++ fingerprint) }

section

variable {m : Type → Type} [Monad m]

/-- Loads the sources and compiles the root. -/
def compileFiles (R : FileReader m) (file : Path) (paths : List String) (config : Option Path) :
    m (Except CommandError (Sources × Artifact)) := do
  match ← Sources.load R file paths config with
  | .error e => return .error (.load e)
  | .ok s =>
    match s.candidates.compile s.root with
    | .error e => return .error (.compile e)
    | .ok a => return .ok (s, a)

/-- The reading part of a command. -/
def Command.prepare (R : FileReader m) : Command → m Work
  | .init directory => return .create directory
  | .validate file => do
    match ← Source.load R file with
    | .error e => return .fail (.compile e)
    | .ok s => return .done (CommandLine.validate file s)
  | .compile file paths output config => do
    match ← compileFiles R file paths config with
    | .error e => return .fail e
    | .ok (s, a) =>
      let path := output.getD (artifactPath s.config.outputPath s.root.name.text)
      return .save path s.root.name a s.config.pretty
  | .plan file paths config asJson => do
    match ← compileFiles R file paths config with
    | .error e => return .fail e
    | .ok (_, a) => return .print (if asJson then line a.document.pretty else listing a)
  | .verify file => do
    match ← Json.load R file with
    | .error e => return .fail (.document e)
    | .ok j => return .done (checkDocument file j)
  | .schema => return .print (line Source.Schema.document.pretty)
  | .completions shell => return .done { script := some shell }

/-- The writing part of a command. -/
def Work.perform (S : FileStore m) : Work → m Report
  | .done report => return report
  | .create directory => do
    match ← Template.create S directory with
    | .error e => return { error := some (.template e) }
    | .ok files =>
      return { out := line ("Initialized flowplan project at " ++ directory.text) ++
        String.join (files.map fun p => line ("  Created: " ++ p.text)) }
  | .save path name a indented => do
    match ← a.save S path indented with
    | .error e => return { error := some (.save e) }
    | .ok fingerprint =>
      return { out := line ("Compiled " ++ name.text ++ ": " ++ toString (a.dependencies.size + 1) ++
        " plan(s) → " ++ path.text) ++ line ("  fingerprint: " ++ fingerprint) }

def Command.run (S : FileStore m) (c : Command) : m Report := do
  let work ← c.prepare S.toFileReader
  work.perform S

end

/-- Runs a command on a tree of files. -/
def Command.runOn (c : Command) (t : FileTree) : Report × FileTree := (c.run FileTree.store).run t

end WorkflowCompiler.CommandLine
