import WorkflowCompiler.Json.Token

/-!
Reading JSON text. A machine takes one token at a time and keeps the containers that are still open on a
stack. A repeated key keeps its first place and takes the last value. At most 127 containers may be
open at once.
-/

namespace WorkflowCompiler.Json

/-- An open container: the items read so far, last one first, or the members and the key being filled. -/
inductive Frame where
  | arr (items : List Json)
  | obj (members : List (String × Json)) (key : String)

/-- What may come next. After an opening bracket the container may also close at once. -/
inductive Mode where
  | value (mayClose : Bool)
  | key (mayClose : Bool)
  | colon
  | next
  | done (result : Json)

structure Machine where
  stack : List Frame
  mode : Mode

namespace Machine

def start : Machine := ⟨[], .value false⟩

def maxDepth : Nat := 127

/-- Puts a finished value into the innermost open container. -/
def give (stack : List Frame) (v : Json) : Machine :=
  match stack with
  | [] => ⟨[], .done v⟩
  | .arr items :: r => ⟨.arr (v :: items) :: r, .next⟩
  | .obj members k :: r => ⟨.obj (putEntry k v members) k :: r, .next⟩

def push (stack : List Frame) (f : Frame) (mode : Mode) : Option Machine :=
  if stack.length < maxDepth then some ⟨f :: stack, mode⟩ else none

def value (stack : List Frame) : Token → Option Machine
  | .null => some (give stack .null)
  | .bool b => some (give stack (.bool b))
  | .int i => some (give stack (.int i))
  | .float x => some (give stack (.float x))
  | .str s => some (give stack (.str s))
  | .openBracket => push stack (.arr []) (.value true)
  | .openBrace => push stack (.obj [] "") (.key true)
  | _ => none

def step (m : Machine) (t : Token) : Option Machine :=
  match m.mode, m.stack, t with
  | .value true, .arr items :: r, .closeBracket => some (give r (.arr items.reverse))
  | .value _, stack, t => value stack t
  | .key true, .obj members _ :: r, .closeBrace => some (give r (.obj members))
  | .key _, .obj members _ :: r, .str k => some ⟨.obj members k :: r, .colon⟩
  | .colon, stack, .colon => some ⟨stack, .value false⟩
  | .next, .arr items :: r, .comma => some ⟨.arr items :: r, .value false⟩
  | .next, .arr items :: r, .closeBracket => some (give r (.arr items.reverse))
  | .next, .obj members k :: r, .comma => some ⟨.obj members k :: r, .key false⟩
  | .next, .obj members _ :: r, .closeBrace => some (give r (.obj members))
  | _, _, _ => none

def result? (m : Machine) : Option Json :=
  match m.mode with
  | .done v => some v
  | _ => none

end Machine

/-- The value a text denotes, or nothing when the text is not JSON. -/
def parse (text : String) : Option Json := do
  let ts ← tokens [] text.toList
  let m ← ts.foldlM Machine.step Machine.start
  m.result?

end WorkflowCompiler.Json
