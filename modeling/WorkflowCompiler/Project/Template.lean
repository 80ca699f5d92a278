import WorkflowCompiler.Config

/-!
The files of a new project: a configuration, a flow and the operation that it calls.
-/

namespace WorkflowCompiler.Template

/-- Each line ends with a line feed. -/
def textOf (lines : List String) : String := String.join (lines.map fun s => s ++ "\n")

def config : String := textOf [
  "[sources]",
  "paths = [\"lib/**/*.yaml\"]",
  "",
  "[output]",
  "dir = \"build\"",
  "pretty = true"]

def flow : String := textOf [
  "namespace: hello",
  "flow:",
  "  name: greet_all",
  "  inputs:",
  "    - name: names",
  "  workflow:",
  "    - name: greet",
  "      do: greet",
  "      parallel_loop:",
  "        for: who",
  "        in: names",
  "      inputs:",
  "        - name: who",
  "      publish:",
  "        - name: greeting",
  "          value: $\x7bgreeting\x7d",
  "      aggregate:",
  "        - name: greetings",
  "          value: \"$\x7b map(lambda x:str(x['greeting']), branches_context) \x7d\""]

def operation : String := textOf [
  "namespace: hello",
  "operation:",
  "  name: greet",
  "  inputs:",
  "    - name: who",
  "  outputs:",
  "    - name: greeting",
  "      value: $\x7bgreeting\x7d",
  "  action:",
  "    script: \"greeting = 'hello ' + who\""]

inductive Error where
  /-- There is a configuration file already. -/
  | occupied (path : Path)
  | directory (error : FileError)
  | write (path : Path) (error : FileError)
  deriving DecidableEq, Repr

def Error.message : Error → String
  | .occupied path => path.text ++ " already exists"
  | .directory error => "cannot create lib dir: " ++ error.message
  | .write path error => "cannot write " ++ path.text ++ ": " ++ error.message

/-- The files of a project in a directory, in the order in which they are written. -/
def files (directory : Path) : List (Path × String) :=
  let library := directory.join ⟨"lib"⟩
  [(directory.join ⟨Config.fileName⟩, config), (library.join ⟨"greet_all.yaml"⟩, flow),
    (library.join ⟨"greet.yaml"⟩, operation)]

section

variable {m : Type → Type} [Monad m]

def writeAll (S : FileStore m) : List (Path × String) → m (Except Error Unit)
  | [] => return .ok ()
  | (path, text) :: r => do
    match ← S.write path text with
    | .error e => return .error (.write path e)
    | .ok () => writeAll S r

/-- Makes a project and gives its files. What stands in their place is overwritten, except a configuration. -/
def create (S : FileStore m) (directory : Path) : m (Except Error (List Path)) := do
  let configPath := directory.join ⟨Config.fileName⟩
  if ← S.exists? configPath then return .error (.occupied configPath)
  match ← S.makeDirectories (directory.join ⟨"lib"⟩) with
  | .error e => return .error (.directory e)
  | .ok () =>
    match ← writeAll S (files directory) with
    | .error e => return .error e
    | .ok () => return .ok ((files directory).map Prod.fst)

end

end WorkflowCompiler.Template
