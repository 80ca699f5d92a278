import WorkflowCompiler.QualifiedName
import WorkflowCompiler.Text.Quoted

/-!
Why a value does not have the shape that is read from it, and the text of each cause. The causes are the
same for all formats; a format only chooses how it names what it found.
-/

namespace WorkflowCompiler

/-- What a reader met where it wanted something else. -/
inductive Found where
  | bool (b : Bool)
  | integer (i : Int)
  /-- An integer that needs more than 64 bits. -/
  | wide (i : Int)
  | float (text : String)
  | string (s : String)
  | unit
  | null
  | sequence
  | map
  deriving DecidableEq, Repr

def tick (s : String) : String := "`" ++ s ++ "`"

def Found.text : Found → String
  | .bool b => "boolean " ++ tick (if b then "true" else "false")
  | .integer i => "integer " ++ tick (toString i)
  | .wide i => "integer " ++ tick (toString i) ++ (if i < 0 then " as i128" else " as u128")
  | .float text => "floating point " ++ tick text
  | .string s => "string " ++ Text.quoted s
  | .unit => "unit value"
  | .null => "null"
  | .sequence => "sequence"
  | .map => "map"

inductive DecodeError where
  | missingField (name : String)
  | unknownField (name : String) (known : List String)
  | duplicateField (name : String)
  | invalidType (found : Found) (expected : String)
  | invalidValue (found : Found) (expected : String)
  | invalidLength (length : Nat) (expected : String)
  | unknownVariant (name : String) (known : List String)
  /-- None of the alternatives of a type fits. -/
  | noAlternative (type : String)
  | badName (error : NameError)
  /-- A key that should be a number is not written like one. -/
  | notANumber
  /-- The number in a key breaks off or is out of range, seen at a column. -/
  | badNumber (reason : String) (column : Nat)
  /-- The number in a key is not the wanted one. -/
  | wrongNumber (error : DecodeError) (column : Nat)
  deriving DecidableEq, Repr

namespace DecodeError

/-- The names one may use, in a list. -/
def oneOf : List String → String
  | [a] => tick a
  | [a, b] => tick a ++ " or " ++ tick b
  | names => "one of " ++ ", ".intercalate (names.map tick)

def atColumn (column : Nat) : String := " at line 1 column " ++ toString column

def message : DecodeError → String
  | .missingField name => "missing field " ++ tick name
  | .unknownField name known => "unknown field " ++ tick name ++ ", expected " ++ oneOf known
  | .duplicateField name => "duplicate field " ++ tick name
  | .invalidType found expected => "invalid type: " ++ found.text ++ ", expected " ++ expected
  | .invalidValue found expected => "invalid value: " ++ found.text ++ ", expected " ++ expected
  | .invalidLength length expected =>
    "invalid length " ++ toString length ++ ", expected " ++ expected
  | .unknownVariant name known => "unknown variant " ++ tick name ++ ", expected " ++ oneOf known
  | .noAlternative type => "data did not match any variant of untagged enum " ++ type
  | .badName error => error.message
  | .notANumber => "invalid value: expected key to be a number in quotes"
  | .badNumber reason column => reason ++ atColumn column
  | .wrongNumber error column => error.message ++ atColumn column

end DecodeError

end WorkflowCompiler
