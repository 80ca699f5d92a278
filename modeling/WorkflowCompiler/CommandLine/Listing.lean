import WorkflowCompiler.Artifact.Document

/-!
The plans of an artifact as a listing for readers: a line for each plan and each instruction, and one for each result
that leads on from an instruction.
-/

namespace WorkflowCompiler.CommandLine

/-- A text moved to the right in a column. -/
def alignRight (width : Nat) (s : String) : String :=
  String.ofList (List.replicate (width - s.length) ' ') ++ s

/-- A text moved to the left in a column. -/
def alignLeft (width : Nat) (s : String) : String :=
  s ++ String.ofList (List.replicate (width - s.length) ' ')

def line (s : String) : String := s ++ "\n"

def markers (i : Instruction) : String :=
  match i.isSplit, i.isAsync with
  | true, true => " [split, async]"
  | true, false => " [split]"
  | false, true => " [async]"
  | false, false => ""

def jumpLine (result : String) (j : Jump) : String :=
  let goal := match j.preset with
    | some preset => if j.isTerminal then "end(" ++ preset ++ ")" else toString j.next
    | none => toString j.next
  line ("        " ++ result ++ " → " ++ goal)

def instructionLines (i : Instruction) : String :=
  line ("  " ++ alignRight 4 (toString i.id) ++ "  " ++ alignLeft 18 i.task.role ++ " " ++ i.name ++
    markers i) ++
  match i.navigation? with
  | some navigation => String.join (navigation.entries.map fun e => jumpLine e.1 e.2)
  | none => ""

def planLines (p : Plan) : String :=
  line (p.id ++ " (" ++ p.kind.text ++ ", begin " ++ toString p.start ++ ") " ++
    p.toWire.fingerprint) ++
  String.join (p.instructions.map instructionLines) ++ line ""

def listing (a : Artifact) : String :=
  String.join (a.plans.map planLines) ++ line ("fingerprint: " ++ a.fingerprint)

end WorkflowCompiler.CommandLine
