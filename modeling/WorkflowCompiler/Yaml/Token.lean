/-!
The tokens of YAML text. Indentation is made explicit by tokens that open and close blocks, and a key
token stands before every key, also where none is written.
-/

namespace WorkflowCompiler.Yaml

inductive ScalarStyle where
  | plain | literal | other
  deriving DecidableEq, Repr

inductive Token where
  | streamStart
  | streamEnd
  | versionDirective (major minor : Nat)
  | tagDirective (handle start : String)
  | documentStart
  | documentEnd
  | blockSequenceStart
  | blockMappingStart
  | blockEnd
  | flowSequenceStart
  | flowSequenceEnd
  | flowMappingStart
  | flowMappingEnd
  | blockEntry
  | flowEntry
  | key
  | value
  | alias (name : String)
  | anchor (name : String)
  | tag (handle suffix : String)
  | scalar (text : String) (style : ScalarStyle)
  deriving DecidableEq, Repr

end WorkflowCompiler.Yaml
