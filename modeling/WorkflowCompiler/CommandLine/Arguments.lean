import WorkflowCompiler.Text.Split

/-!
Arguments of a command line. An option is given by its long name after two hyphens or by a letter after one, its value
comes with it or as the next argument, and after two hyphens alone all arguments stand for themselves. A value is only
looked at when the next option or the end comes, so that an argument that makes no sense is reported first.
-/

namespace WorkflowCompiler.CommandLine

inductive UsageError where
  /-- Help was asked for. -/
  | help
  /-- The version was asked for. -/
  | version
  /-- There are no arguments at all. -/
  | nothingGiven
  | missingCommand
  | unknownCommand
  | missingArgument
  | unknownArgument
  /-- A value is missing or is none of those allowed. -/
  | badValue
  /-- Given twice. -/
  | repeated
  /-- A value for an option that takes none. -/
  | unwantedValue
  deriving DecidableEq, Repr

/-- What a value must be. -/
inductive ValueKind where
  | text
  /-- A path is not empty. -/
  | path
  | oneOf (choices : List String)
  deriving DecidableEq, Repr

def ValueKind.admits : ValueKind → String → Bool
  | .text, _ => true
  | .path, s => !s.isEmpty
  | .oneOf choices, s => choices.contains s

/-- Something that takes a value. -/
structure Slot where
  name : String
  kind : ValueKind
  repeatable : Bool := false
  deriving DecidableEq, Repr

inductive Role where
  | help
  | version
  /-- Only whether it is given matters. -/
  | switch
  | value (kind : ValueKind) (repeatable : Bool)
  deriving DecidableEq, Repr

structure OptionSpec where
  long : String
  short : Option Char
  role : Role
  deriving DecidableEq, Repr

/-- The options and the values in order that a command takes. -/
structure Grammar where
  options : List OptionSpec
  operands : List Slot
  required : List String

def helpOption : OptionSpec := ⟨"help", some 'h', .help⟩

/-- What has been read: the values by the names of their slots, and the value that was not looked at yet. -/
structure Progress where
  given : List (String × String) := []
  pending : Option (Slot × Option String) := none
  /-- Whether the next argument is the value of an option. -/
  awaiting : Bool := false
  /-- Whether all arguments stand for themselves. -/
  verbatim : Bool := false
  operandCount : Nat := 0

namespace Progress

def has (p : Progress) (name : String) : Bool := (p.given.lookup name).isSome

def value? (p : Progress) (name : String) : Option String := p.given.lookup name

def values (p : Progress) (name : String) : List String :=
  (p.given.filter fun e => e.1 = name).map Prod.snd

/-- Takes a value into a slot. -/
def accept (p : Progress) (slot : Slot) (v : String) : Except UsageError Progress :=
  if !slot.repeatable && p.has slot.name then .error .repeated
  else if slot.kind.admits v then .ok { p with given := p.given ++ [(slot.name, v)] }
  else .error .badValue

/-- Looks at the value that is left. -/
def settle (p : Progress) : Except UsageError Progress :=
  match p.pending with
  | none => .ok p
  | some (_, none) => .error .badValue
  | some (slot, some v) => { p with pending := none, awaiting := false }.accept slot v

/-- Takes an option with the value that came with it, if one did. -/
def take (p : Progress) (o : OptionSpec) (attached : Option String) : Except UsageError Progress := do
  match o.role, attached with
  | .value kind repeatable, some v =>
    let p ← p.settle
    p.accept ⟨o.long, kind, repeatable⟩ v
  | .value kind repeatable, none =>
    let p ← p.settle
    return { p with pending := some (⟨o.long, kind, repeatable⟩, none), awaiting := true }
  | _, some _ => throw .unwantedValue
  | .help, none =>
    let _ ← p.settle
    throw .help
  | .version, none =>
    let _ ← p.settle
    throw .version
  | .switch, none =>
    let p ← p.settle
    p.accept ⟨o.long, .text, false⟩ "true"

end Progress

/-- The argument after two hyphens: a long name, and a value after an equals sign. -/
def takeLong (g : Grammar) (p : Progress) (body : List Char) : Except UsageError Progress :=
  let (name, attached) := match Text.cutFirst '=' body with
    | some (name, v) => (name, some (String.ofList v))
    | none => (body, none)
  match g.options.find? fun o => o.long.toList = name with
  | some o => p.take o attached
  | none => .error .unknownArgument

/-- The argument after one hyphen: a letter, and the rest as its value. -/
def takeShort (g : Grammar) (p : Progress) (letter : Char) (rest : List Char) :
    Except UsageError Progress :=
  match g.options.find? fun o => o.short = some letter with
  | none => .error .unknownArgument
  | some o =>
    match o.role, rest with
    | .value .., '=' :: v => p.take o (some (String.ofList v))
    | .value .., c :: v => p.take o (some (String.ofList (c :: v)))
    | _, _ => p.take o none

/-- An argument that stands for itself. -/
def takeOperand (g : Grammar) (stray : UsageError) (p : Progress) (arg : String) :
    Except UsageError Progress := do
  match g.operands[p.operandCount]? with
  | none => throw stray
  | some slot =>
    let p ← p.settle
    return { p with pending := some (slot, some arg), operandCount := p.operandCount + 1 }

/-- Takes one argument. `stray` is the error for one that has no place. -/
def takeArgument (g : Grammar) (stray : UsageError) (p : Progress) (arg : String) :
    Except UsageError Progress :=
  if p.verbatim then takeOperand g stray p arg
  else
    match arg.toList with
    | ['-', '-'] => .ok { p with verbatim := true }
    | '-' :: '-' :: body => takeLong g p body
    | '-' :: letter :: rest => takeShort g p letter rest
    | _ =>
      match p.awaiting, p.pending with
      | true, some (slot, _) => .ok { p with pending := some (slot, some arg), awaiting := false }
      | _, _ => takeOperand g stray p arg

/-- Takes all arguments of a command; then what is required must be there. -/
def takeAll (g : Grammar) (args : List String) : Except UsageError Progress := do
  let p ← args.foldlM (takeArgument g .unknownArgument) {}
  let p ← p.settle
  if g.required.all p.has then return p else throw .missingArgument

/-- Takes arguments up to the name of a command, and gives that with the arguments after it. -/
def takeUntilCommand (g : Grammar) (commands : List String) : List String → Progress →
    Except UsageError (Progress × Option (String × List String))
  | [], p => .ok (p, none)
  | arg :: r, p =>
    if !p.verbatim && !p.awaiting && commands.contains arg then .ok (p, some (arg, r))
    else do
      let stray := if commands.contains arg then .unknownArgument else .unknownCommand
      let p ← takeArgument g stray p arg
      takeUntilCommand g commands r p

end WorkflowCompiler.CommandLine
