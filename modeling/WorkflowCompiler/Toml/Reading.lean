import WorkflowCompiler.Decode.Shape
import WorkflowCompiler.Toml.Document

/-!
Reading records from TOML values. A record may also be given as a row, and items beyond its fields are then passed
over. A date is seen as a map with one entry.
-/

namespace WorkflowCompiler.Toml

abbrev Decoded := Except DecodeError

namespace Value

def found : Value → Found
  | .text s => .string s
  | .whole i => .integer i
  | .fraction shown => .float shown
  | .flag b => .bool b
  | .moment | .table .. => .map
  | .array _ | .tables _ => .sequence

def wrong {α : Type} (v : Value) (expected : String) : Decoded α :=
  .error (.invalidType v.found expected)

/-- A text; `expected` is what the message asks for. -/
def readText (expected : String) : Value → Decoded String
  | .text s => .ok s
  | v => v.wrong expected

def readFlag : Value → Decoded Bool
  | .flag b => .ok b
  | v => v.wrong "a boolean"

def items? : Value → Option (List Value)
  | .array items => some items
  | .tables items => some (items.map (.table .declared))
  | _ => none

def members? : Value → Option Members
  | .table _ members => some members
  | .moment => some [("$__toml_private_datetime", .text "")]
  | _ => none

def readList {α : Type} (read : Value → Decoded α) (v : Value) : Decoded (List α) :=
  match v.items? with
  | some items => items.mapM read
  | none => v.wrong "a sequence"

def readRecord {σ τ : Type} (s : Shape Value Decoded σ τ) (v : Value) : Decoded τ :=
  match v.members?, v.items? with
  | some members, _ => do
    let parts ← s.readMembers members s.start
    s.finish parts
  | none, some items => do
    let (parts, _) ← s.readRow items
    s.finish parts
  | none, none => v.wrong s.title

end Value

end WorkflowCompiler.Toml
