import WorkflowCompiler.Catalog
import WorkflowCompiler.Config
import WorkflowCompiler.Glob.Matches
import WorkflowCompiler.Source.Reader

/-!
Loading what a compilation works on: the root from its file, and the candidates from the files that the patterns
stand for. The root's own file is no candidate, whatever its spelling.
-/

namespace WorkflowCompiler

inductive LoadError where
  | config (error : ConfigError)
  | pattern (error : Glob.BadPattern)
  | source (error : CompileError)
  deriving DecidableEq, Repr

def LoadError.message : LoadError → String
  | .config error => error.message
  | .pattern error => error.message
  | .source error => error.message

structure Sources where
  root : Executable
  candidates : Catalog
  config : Config

section

variable {m : Type → Type} [Monad m]

/-- Reads a source file, which is named in errors by its path. -/
def Source.load (R : FileReader m) (path : Path) : m (Except CompileError Source) := do
  match ← R.contents path with
  | .error e => return .error (.unreadableSource path.text ("failed to read: " ++ e.message))
  | .ok text => return Source.ofText text path.text

def Executable.load (R : FileReader m) (path : Path) : m (Except CompileError Executable) := do
  match ← Source.load R path with
  | .error e => return .error e
  | .ok s => return s.toExecutable path.text

namespace Sources

/-- Loads the candidates in turn. None of them may have the name of the root. -/
def addCandidates (R : FileReader m) (root : Executable) (home : Option Location) :
    List Path → Catalog → m (Except CompileError Catalog)
  | [], c => return .ok c
  | path :: r, c => do
    let place ← R.location? path
    if place = home then addCandidates R root home r c
    else
      match ← Executable.load R path with
      | .error e => return .error e
      | .ok e =>
        if e.name = root.name then return .error (.duplicateExecutable root.name.text)
        else
          match c.extend e with
          | .error e => return .error e
          | .ok c => addCandidates R root home r c

/-- Without any pattern the directory of the root is looked through. -/
def patternsFor (config : Config) (file : Path) (others : List String) : List String :=
  match config.patterns others with
  | [] => [((file.parent?.getD ⟨"."⟩).join ⟨"*.yaml"⟩).text]
  | patterns => patterns

def load (R : FileReader m) (file : Path) (others : List String) (configFile : Option Path) :
    m (Except LoadError Sources) := do
  match ← Config.loadOrDefault R configFile with
  | .error e => return .error (.config e)
  | .ok config =>
    match ← Executable.load R file with
    | .error e => return .error (.source e)
    | .ok root =>
      let home ← R.location? file
      match ← Glob.matchingFiles R (patternsFor config file others) with
      | .error e => return .error (.pattern e)
      | .ok paths =>
        match ← addCandidates R root home paths .empty with
        | .error e => return .error (.source e)
        | .ok candidates => return .ok ⟨root, candidates, config⟩

end Sources

end

end WorkflowCompiler
