import WorkflowCompiler.Yaml.Token

/-!
The events of a YAML stream: what its tokens say about documents, collections and scalars. A machine takes
the tokens from the front of a list; each of its steps gives one event.
-/

namespace WorkflowCompiler.Yaml

/-- What may be written before a node. -/
structure Properties where
  anchor : Option String
  tag : Option String
  deriving DecidableEq, Repr

def Properties.none : Properties := ⟨.none, .none⟩

inductive Event where
  | streamStart
  | streamEnd
  | documentStart
  | documentEnd
  | alias (name : String)
  | scalar (properties : Properties) (text : String) (style : ScalarStyle)
  | sequenceStart (properties : Properties)
  | sequenceEnd
  | mappingStart (properties : Properties)
  | mappingEnd
  deriving DecidableEq, Repr

/-- What may come next. -/
inductive Expected where
  | streamStart
  | implicitDocument
  | document
  | documentContent
  | documentEnd
  | blockNode
  | blockSequenceFirst
  | blockSequence
  | indentlessSequence
  | blockMappingFirst
  | blockMappingKey
  | blockMappingValue
  | flowSequenceFirst
  | flowSequence
  | flowPairKey
  | flowPairValue
  | flowPairEnd
  | flowMappingFirst
  | flowMappingKey
  | flowMappingValue
  | flowMappingEmptyValue
  | finished
  deriving DecidableEq, Repr

structure EventMachine where
  tokens : List Token
  expected : Expected
  /-- Where to go on when the present node is complete. -/
  stack : List Expected
  /-- The handles of the document with what they stand for. -/
  handles : List (String × String)

namespace EventMachine

abbrev Step := Option (Event × EventMachine)

def pop (p : EventMachine) : EventMachine :=
  match p.stack with
  | s :: r => { p with expected := s, stack := r }
  | [] => { p with expected := .finished }

def push (p : EventMachine) (s : Expected) : EventMachine := { p with stack := s :: p.stack }

def goto (p : EventMachine) (s : Expected) : EventMachine := { p with expected := s }

def skip (p : EventMachine) : EventMachine := { p with tokens := p.tokens.drop 1 }

/-- A node of which nothing is written. -/
def emptyScalar (p : EventMachine) : Step := some (.scalar .none "" .plain, p)

/-- The directives before a document. A version may be given once, and a handle may be declared once. -/
def directives : List Token → Bool → List (String × String) →
    Option (List Token × List (String × String))
  | .versionDirective major minor :: r, versioned, handles =>
    if versioned ∨ major ≠ 1 ∨ (minor ≠ 1 ∧ minor ≠ 2) then none
    else directives r true handles
  | .tagDirective handle start :: r, versioned, handles =>
    if handles.any fun h => h.1 == handle then none
    else directives r versioned (handles ++ [(handle, start)])
  | [], _, _ => none
  | ts, _, handles => some (ts, handles)

/-- The handles that every document has, unless it declares them itself. -/
def defaultHandles : List (String × String) := [("!", "!"), ("!!", "tag:yaml.org,2002:")]

def withDefaults (handles : List (String × String)) : List (String × String) :=
  handles ++ defaultHandles.filter fun d => !(handles.any fun h => h.1 == d.1)

/-- The first document may begin without a mark. -/
def documentStart (p : EventMachine) (implicit : Bool) : Step :=
  let tokens := if implicit then p.tokens else p.tokens.dropWhile (· == .documentEnd)
  match tokens with
  | [] => none
  | .streamEnd :: r => some (.streamEnd, { p with tokens := r, expected := .finished })
  | t :: _ =>
    let marked := match t with
      | .versionDirective .. | .tagDirective .. | .documentStart => true
      | _ => false
    if implicit ∧ !marked then
      some (.documentStart,
        { p with tokens, handles := withDefaults [], expected := .blockNode,
                 stack := .documentEnd :: p.stack })
    else
      match directives tokens false [] with
      | some (.documentStart :: r, handles) =>
        some (.documentStart,
          { tokens := r, handles := withDefaults handles, expected := .documentContent,
            stack := .documentEnd :: p.stack })
      | _ => none

def documentEnd (p : EventMachine) : Step :=
  match p.tokens with
  | [] => none
  | .documentEnd :: r => some (.documentEnd, { p with tokens := r, expected := .document })
  | _ => some (.documentEnd, { p with expected := .document })

/-- A tag in full. A handle that is not declared is an error. -/
def fullTag (p : EventMachine) (handle suffix : String) : Option String :=
  if handle.isEmpty then some suffix else (p.handles.lookup handle).map (· ++ suffix)

/-- Anchor and tag of a node, in either order. -/
def properties (p : EventMachine) : Option (Properties × EventMachine) :=
  match p.tokens with
  | .anchor a :: .tag h s :: r => do
    let t ← p.fullTag h s
    return (⟨some a, some t⟩, { p with tokens := r })
  | .tag h s :: .anchor a :: r => do
    let t ← p.fullTag h s
    return (⟨some a, some t⟩, { p with tokens := r })
  | .anchor a :: r => some (⟨some a, none⟩, { p with tokens := r })
  | .tag h s :: r => do
    let t ← p.fullTag h s
    return (⟨none, some t⟩, { p with tokens := r })
  | _ => some (.none, p)

/-- A node. Blocks may begin here only if `block`, and a sequence without indentation of its own only if
`indentless`. A tag that is just a mark says nothing about a scalar. -/
def node (p : EventMachine) (block indentless : Bool) : Step :=
  match p.tokens with
  | .alias name :: _ => some (.alias name, p.skip.pop)
  | _ => do
    let (props, p) ← p.properties
    match p.tokens with
    | [] => none
    | t :: _ =>
      match t, block, indentless with
      | .blockEntry, _, true => some (.sequenceStart props, p.goto .indentlessSequence)
      | .scalar text style, _, _ =>
        let props := if props.tag = some "!" then { props with tag := none } else props
        some (.scalar props text style, p.skip.pop)
      | .flowSequenceStart, _, _ => some (.sequenceStart props, p.goto .flowSequenceFirst)
      | .flowMappingStart, _, _ => some (.mappingStart props, p.goto .flowMappingFirst)
      | .blockSequenceStart, true, _ => some (.sequenceStart props, p.goto .blockSequenceFirst)
      | .blockMappingStart, true, _ => some (.mappingStart props, p.goto .blockMappingFirst)
      | _, _, _ =>
        if props.anchor.isSome ∨ props.tag.isSome then some (.scalar props "" .plain, p.pop)
        else none

def documentContent (p : EventMachine) : Step :=
  match p.tokens with
  | [] => none
  | .versionDirective .. :: _ | .tagDirective .. :: _ | .documentStart :: _ | .documentEnd :: _
  | .streamEnd :: _ => p.pop.emptyScalar
  | _ => p.node true false

/-- What follows an entry mark: a node, or nothing. -/
def entry (p : EventMachine) (back : Expected) (isEnd : Token → Bool) (block indentless : Bool) : Step :=
  match p.tokens with
  | [] => none
  | t :: _ =>
    if isEnd t then (p.goto back).emptyScalar else (p.push back).node block indentless

def endsBlockEntry : Token → Bool
  | .blockEntry | .blockEnd => true
  | _ => false

def endsIndentlessEntry : Token → Bool
  | .blockEntry | .key | .value | .blockEnd => true
  | _ => false

def endsBlockValue : Token → Bool
  | .key | .value | .blockEnd => true
  | _ => false

def endsPairKey : Token → Bool
  | .value | .flowEntry | .flowSequenceEnd => true
  | _ => false

def endsPairValue : Token → Bool
  | .flowEntry | .flowSequenceEnd => true
  | _ => false

def endsFlowKey : Token → Bool
  | .value | .flowEntry | .flowMappingEnd => true
  | _ => false

def endsFlowValue : Token → Bool
  | .flowEntry | .flowMappingEnd => true
  | _ => false

def blockSequence (p : EventMachine) : Step :=
  match p.tokens with
  | .blockEntry :: _ => p.skip.entry .blockSequence endsBlockEntry true false
  | .blockEnd :: _ => some (.sequenceEnd, p.skip.pop)
  | _ => none

def indentlessSequence (p : EventMachine) : Step :=
  match p.tokens with
  | .blockEntry :: _ => p.skip.entry .indentlessSequence endsIndentlessEntry true false
  | [] => none
  | _ => some (.sequenceEnd, p.pop)

def blockMappingKey (p : EventMachine) : Step :=
  match p.tokens with
  | .key :: _ => p.skip.entry .blockMappingValue endsBlockValue true true
  | .blockEnd :: _ => some (.mappingEnd, p.skip.pop)
  | _ => none

def blockMappingValue (p : EventMachine) : Step :=
  match p.tokens with
  | .value :: _ => p.skip.entry .blockMappingKey endsBlockValue true true
  | [] => none
  | _ => (p.goto .blockMappingKey).emptyScalar

/-- Passes over the comma before an entry that is not the first. -/
def separated (p : EventMachine) (first : Bool) (close : Token) : Option EventMachine :=
  match p.tokens with
  | [] => none
  | t :: _ =>
    if first ∨ t = close then some p else if t = .flowEntry then some p.skip else none

/-- A pair inside a sequence is a mapping of its own. -/
def flowSequence (p : EventMachine) (first : Bool) : Step := do
  let p ← p.separated first .flowSequenceEnd
  match p.tokens with
  | [] => none
  | .key :: _ => some (.mappingStart .none, p.skip.goto .flowPairKey)
  | .flowSequenceEnd :: _ => some (.sequenceEnd, p.skip.pop)
  | _ => (p.push .flowSequence).node false false

/-- Where the key of a pair is missing the token in its place is passed over. -/
def flowPairKey (p : EventMachine) : Step :=
  match p.tokens with
  | [] => none
  | t :: _ =>
    if endsPairKey t then (p.skip.goto .flowPairValue).emptyScalar
    else (p.push .flowPairValue).node false false

def flowPairValue (p : EventMachine) : Step :=
  match p.tokens with
  | [] => none
  | .value :: _ => p.skip.entry .flowPairEnd endsPairValue false false
  | _ => (p.goto .flowPairEnd).emptyScalar

/-- A pair ends once it is known that the text goes on. -/
def flowPairEnd (p : EventMachine) : Step :=
  match p.tokens with
  | [] => none
  | _ => some (.mappingEnd, p.goto .flowSequence)

def flowMappingKey (p : EventMachine) (first : Bool) : Step := do
  let p ← p.separated first .flowMappingEnd
  match p.tokens with
  | [] => none
  | .key :: _ => p.skip.entry .flowMappingValue endsFlowKey false false
  | .flowMappingEnd :: _ => some (.mappingEnd, p.skip.pop)
  | _ => (p.push .flowMappingEmptyValue).node false false

def flowMappingValue (p : EventMachine) : Step :=
  match p.tokens with
  | [] => none
  | .value :: _ => p.skip.entry .flowMappingKey endsFlowValue false false
  | _ => (p.goto .flowMappingKey).emptyScalar

/-- A value that a key without a colon has. -/
def flowMappingEmptyValue (p : EventMachine) : Step :=
  match p.tokens with
  | [] => none
  | _ => (p.goto .flowMappingKey).emptyScalar

def step (p : EventMachine) : Step :=
  match p.expected with
  | .streamStart =>
    match p.tokens with
    | .streamStart :: _ => some (.streamStart, p.skip.goto .implicitDocument)
    | _ => none
  | .implicitDocument => p.documentStart true
  | .document => p.documentStart false
  | .documentContent => p.documentContent
  | .documentEnd => p.documentEnd
  | .blockNode => p.node true false
  | .blockSequenceFirst => p.skip.blockSequence
  | .blockSequence => p.blockSequence
  | .indentlessSequence => p.indentlessSequence
  | .blockMappingFirst => p.skip.blockMappingKey
  | .blockMappingKey => p.blockMappingKey
  | .blockMappingValue => p.blockMappingValue
  | .flowSequenceFirst => p.skip.flowSequence true
  | .flowSequence => p.flowSequence false
  | .flowPairKey => p.flowPairKey
  | .flowPairValue => p.flowPairValue
  | .flowPairEnd => p.flowPairEnd
  | .flowMappingFirst => p.skip.flowMappingKey true
  | .flowMappingKey => p.flowMappingKey false
  | .flowMappingValue => p.flowMappingValue
  | .flowMappingEmptyValue => p.flowMappingEmptyValue
  | .finished => none

def start (ts : List Token) : EventMachine := ⟨ts, .streamStart, [], []⟩

/-- All events up to the end of the stream or to the first error; last one first. -/
def run : Nat → EventMachine → List Event → List Event
  | 0, _, out => out
  | fuel + 1, p, out =>
    match p.step with
    | none => out
    | some (e, p) => if e = .streamEnd then e :: out else run fuel p (e :: out)

end EventMachine

/-- A token is passed at least in every fourth step. A stream without errors has its end among its events. -/
def Event.ofTokens (ts : List Token) : List Event :=
  (EventMachine.run (4 * ts.length + 8) (.start ts) []).reverse

end WorkflowCompiler.Yaml
