import WorkflowCompiler.Number.Binary64
import WorkflowCompiler.OrderedMap

/-!
JSON values. The members of an object are kept in order, since the text of a document, and with it
its fingerprint, depends on that order. Whole numbers and binary fractions are kept apart.
-/

namespace WorkflowCompiler

inductive Json where
  | null
  | bool (b : Bool)
  | int (i : Int)
  | float (x : Binary64)
  | str (s : String)
  | arr (items : List Json)
  | obj (members : List (String × Json))
  deriving BEq, Inhabited

namespace Json

/-- The value under a key of an object. -/
def get? : Json → String → Option Json
  | .obj members, key => members.lookup key
  | _, _ => none

def str? : Json → Option String
  | .str s => some s
  | _ => none

def strings (xs : List String) : Json := .arr (xs.map .str)

end Json

end WorkflowCompiler
