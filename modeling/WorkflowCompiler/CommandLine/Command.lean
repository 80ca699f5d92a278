import WorkflowCompiler.CommandLine.Arguments
import WorkflowCompiler.Path

/-!
The commands of the compiler and how they are given on a command line.
-/

namespace WorkflowCompiler.CommandLine

inductive Shell where
  | bash | elvish | fish | powershell | zsh
  deriving DecidableEq, Repr

def shells : List (String × Shell) :=
  [("bash", .bash), ("elvish", .elvish), ("fish", .fish), ("powershell", .powershell), ("zsh", .zsh)]

inductive Command where
  /-- Makes a new project. -/
  | init (directory : Path)
  /-- Checks one source file on its own. -/
  | validate (file : Path)
  /-- Compiles a root and writes its artifact. -/
  | compile (file : Path) (paths : List String) (output config : Option Path)
  /-- Shows the plans of a compilation, or its document. -/
  | plan (file : Path) (paths : List String) (config : Option Path) (asJson : Bool)
  /-- Checks an artifact against its fingerprint. -/
  | verify (file : Path)
  /-- Shows the schema of source files. -/
  | schema
  /-- Shows the completion script for a shell, which the argument parser makes. -/
  | completions (shell : Shell)
  deriving DecidableEq, Repr

structure Invocation where
  logLevel : Option String
  command : Command
  deriving DecidableEq, Repr

/-- An option of every command. -/
def logOption : OptionSpec := ⟨"log-level", none, .value .text false⟩

def fileOption : OptionSpec := ⟨"file", some 'f', .value .path false⟩
def pathOption : OptionSpec := ⟨"path", some 'p', .value .text true⟩
def outputOption : OptionSpec := ⟨"output", some 'o', .value .path false⟩
def configOption : OptionSpec := ⟨"config", some 'c', .value .path false⟩
def jsonOption : OptionSpec := ⟨"json", none, .switch⟩

def grammarOf (options : List OptionSpec) (operands : List Slot) (required : List String) : Grammar :=
  ⟨options ++ [logOption, helpOption], operands, required⟩

/-- What may stand before a command. -/
def topGrammar : Grammar := grammarOf [⟨"version", some 'V', .version⟩] [] []

def pathOf (p : Progress) (name : String) : Option Path := (p.value? name).map Path.mk

/-- A command as it is given: its name, its arguments and what they make. -/
structure Form where
  name : String
  grammar : Grammar
  build : Progress → Option Command

def forms : List Form := [
  ⟨"init", grammarOf [] [⟨"path", .path, false⟩] [],
    fun p => some (.init ((pathOf p "path").getD ⟨"."⟩))⟩,
  ⟨"validate", grammarOf [fileOption] [] ["file"],
    fun p => (pathOf p "file").map .validate⟩,
  ⟨"compile", grammarOf [fileOption, pathOption, outputOption, configOption] [] ["file"],
    fun p => (pathOf p "file").map fun file =>
      .compile file (p.values "path") (pathOf p "output") (pathOf p "config")⟩,
  ⟨"plan", grammarOf [fileOption, pathOption, configOption, jsonOption] [] ["file"],
    fun p => (pathOf p "file").map fun file =>
      .plan file (p.values "path") (pathOf p "config") (p.has "json")⟩,
  ⟨"verify", grammarOf [fileOption] [] ["file"],
    fun p => (pathOf p "file").map .verify⟩,
  ⟨"schema", grammarOf [] [] [], fun _ => some .schema⟩,
  ⟨"completions", grammarOf [] [⟨"shell", .oneOf (shells.map Prod.fst), false⟩] ["shell"],
    fun p => (p.value? "shell").bind fun s => (shells.lookup s).map .completions⟩]

/-- The names of the commands, and the word that asks for help about them. -/
def commandNames : List String := forms.map Form.name ++ ["help"]

/-- Help is there for the whole and for one command. -/
def helpAbout : List String → UsageError
  | [] => .help
  | [name] => if commandNames.contains name then .help else .unknownCommand
  | _ => .unknownCommand

/-- Reads a command line. What is wrong after the name of the command counts before what is wrong in front of it, as
far as that was not looked at. -/
def Invocation.ofArguments (args : List String) : Except UsageError Invocation := do
  let (top, rest) ← takeUntilCommand topGrammar commandNames args {}
  match rest with
  | none =>
    let top ← top.settle
    if top.given.isEmpty then throw .nothingGiven else throw .missingCommand
  | some (name, args) =>
    match forms.find? fun f => f.name = name with
    | none => throw (helpAbout args)
    | some form =>
      let own ← takeAll form.grammar args
      let top ← top.settle
      match form.build own with
      | none => throw .missingArgument
      | some command =>
        return ⟨(own.value? "log-level").or (top.value? "log-level"), command⟩

def versionText : String := "flowplan 0.1.0"

/-- How the commands are called. -/
def usage : String := "\n".intercalate [
  "Usage: flowplan [--log-level LEVEL] COMMAND",
  "",
  "Commands:",
  "  init [DIRECTORY]",
  "  validate -f FILE",
  "  compile -f FILE [-p PATTERN]... [-o FILE] [-c FILE]",
  "  plan -f FILE [-p PATTERN]... [-c FILE] [--json]",
  "  verify -f FILE",
  "  schema",
  "  completions SHELL"]

/-- What is said when a command line is not carried out, and whether that is a fault. -/
def UsageError.explain : UsageError → String × Bool
  | .help => (usage, false)
  | .version => (versionText, false)
  | .nothingGiven => (usage, true)
  | .missingCommand => ("error: a command is missing\n\n" ++ usage, true)
  | .unknownCommand => ("error: unknown command\n\n" ++ usage, true)
  | .missingArgument => ("error: a required argument is missing\n\n" ++ usage, true)
  | .unknownArgument => ("error: unexpected argument\n\n" ++ usage, true)
  | .badValue => ("error: a value is missing or invalid\n\n" ++ usage, true)
  | .repeated => ("error: an argument is given more than once\n\n" ++ usage, true)
  | .unwantedValue => ("error: a value for an option that takes none\n\n" ++ usage, true)

end WorkflowCompiler.CommandLine
