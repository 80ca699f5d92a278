import WorkflowCompiler.OrderedMap
import WorkflowCompiler.Yaml.Event
import WorkflowCompiler.Yaml.Lexer

/-!
The first document of a YAML stream as a tree. An error in the text does not take away what was read before
it: the tree then ends in a node that says so, and a reader fails only when it comes to that node.
-/

namespace WorkflowCompiler.Yaml

inductive Node where
  | scalar (text : String) (tag : Option String) (style : ScalarStyle)
  | sequence (tag : Option String) (items : List Node)
  | mapping (tag : Option String) (entries : List (Node × Node))
  /-- Stands for the node that bears this anchor. -/
  | alias (anchor : Nat)
  /-- A stream without any document. -/
  | void
  /-- Here the text is malformed. -/
  | broken

mutual

/-- Whether the malformed place is inside a node. -/
def Node.isBroken : Node → Bool
  | .broken => true
  | .sequence _ items => anyBroken items
  | .mapping _ entries => anyEntryBroken entries
  | .scalar .. => false
  | .alias _ => false
  | .void => false

def anyBroken : List Node → Bool
  | [] => false
  | n :: r => n.isBroken || anyBroken r

def anyEntryBroken : List (Node × Node) → Bool
  | [] => false
  | (k, v) :: r => k.isBroken || v.isBroken || anyEntryBroken r

end

/-- An anchored node: the number of its anchor and the place of its first event. -/
structure Anchored where
  anchor : Nat
  place : Nat
  node : Node

structure Document where
  root : Node
  /-- The number of events between its start and its end. -/
  size : Nat
  anchored : List Anchored
  /-- Whether the text is malformed within the document or right after it. -/
  isBroken : Bool
  /-- Whether anything but the end of the stream follows. -/
  isFollowed : Bool

/-- The node of an anchor: of those with its number, the one that begins last. -/
def Document.target? (d : Document) (anchor : Nat) : Option Node :=
  let all := d.anchored.filter fun a => a.anchor == anchor
  (all.foldl (fun best a =>
    match best with
    | some (b : Anchored) => if b.place < a.place then some a else best
    | none => some a) none).map Anchored.node

/-- A collection that is still open; its parts are last one first. -/
inductive OpenNode where
  | sequence (tag : Option String) (items : List Node)
  | mapping (tag : Option String) (entries : List (Node × Node)) (key : Option Node)

/-- A document of which some events have been read. -/
structure PartialDocument where
  /-- The names of anchors with their numbers. -/
  names : List (String × Nat)
  size : Nat
  openNodes : List (OpenNode × Option (Nat × Nat))
  anchored : List Anchored
  root : Option Node

namespace PartialDocument

def start : PartialDocument := ⟨[], 0, [], [], none⟩

/-- An anchor is numbered by how many names are known, also when its name has been used before. -/
def declare (c : PartialDocument) : Option String → PartialDocument × Option (Nat × Nat)
  | none => (c, none)
  | some name =>
    let id := c.names.length
    ({ c with names := putEntry name id c.names }, some (id, c.size))

def give (c : PartialDocument) (n : Node) : PartialDocument :=
  match c.openNodes with
  | [] => { c with root := some n }
  | (.sequence tag items, a) :: r => { c with openNodes := (.sequence tag (n :: items), a) :: r }
  | (.mapping tag entries none, a) :: r =>
    { c with openNodes := (.mapping tag entries (some n), a) :: r }
  | (.mapping tag entries (some k), a) :: r =>
    { c with openNodes := (.mapping tag ((k, n) :: entries) none, a) :: r }

def complete (c : PartialDocument) (n : Node) (anchor : Option (Nat × Nat)) : PartialDocument :=
  let c := match anchor with
    | some (id, place) => { c with anchored := ⟨id, place, n⟩ :: c.anchored }
    | none => c
  c.give n

def OpenNode.close : OpenNode → Node
  | .sequence tag items => .sequence tag items.reverse
  | .mapping tag entries none => .mapping tag entries.reverse
  | .mapping tag entries (some k) => .mapping tag ((k, .broken) :: entries).reverse

/-- Closes the innermost collection. -/
def closeTop (c : PartialDocument) : PartialDocument :=
  match c.openNodes with
  | [] => c
  | (o, anchor) :: r => { c with openNodes := r }.complete (OpenNode.close o) anchor

/-- The malformed place becomes the next part of the innermost collection, and all collections are closed. -/
def breakOff (c : PartialDocument) : PartialDocument :=
  let c := match c.openNodes with
    | (.mapping tag entries none, a) :: r =>
      { c with openNodes := (.mapping tag ((.broken, .broken) :: entries) none, a) :: r }
    | _ => c.give .broken
  (List.replicate c.openNodes.length ()).foldl (fun c _ => c.closeTop) c

/-- Takes in one event; nothing when an alias has no anchor. -/
def step (c : PartialDocument) : Event → Option PartialDocument
  | .alias name => do
    let id ← c.names.lookup name
    return { c with size := c.size + 1 }.give (.alias id)
  | .scalar props text style =>
    let (c, anchor) := c.declare props.anchor
    some ({ c with size := c.size + 1 }.complete (.scalar text props.tag style) anchor)
  | .sequenceStart props =>
    let (c, anchor) := c.declare props.anchor
    some { c with size := c.size + 1,
                  openNodes := (.sequence props.tag [], anchor) :: c.openNodes }
  | .mappingStart props =>
    let (c, anchor) := c.declare props.anchor
    some { c with size := c.size + 1,
                  openNodes := (.mapping props.tag [] none, anchor) :: c.openNodes }
  | .sequenceEnd | .mappingEnd => some { c with size := c.size + 1 }.closeTop
  | .streamStart | .streamEnd | .documentStart | .documentEnd => some c

/-- A document whose text is malformed after what has been read of it. -/
def brokenDocument (c : PartialDocument) : Document :=
  match c.root with
  | some root => ⟨root, c.size, c.anchored, true, false⟩
  | none =>
    let d := c.breakOff
    ⟨d.root.getD .broken, c.size, d.anchored, true, false⟩

/-- The document of which `c` has been read, with the events that follow. -/
def document (c : PartialDocument) : List Event → Document
  | [] => c.brokenDocument
  | .streamEnd :: _ => ⟨c.root.getD .void, max c.size 1, c.anchored, false, false⟩
  | .documentEnd :: r =>
    ⟨c.root.getD .void, c.size, c.anchored, false, r.head? != some .streamEnd⟩
  | e :: r =>
    match c.step e with
    | some c => document c r
    | none => c.brokenDocument

end PartialDocument

/-- The first document of a text. -/
def Document.ofText (text : String) : Document :=
  let (ts, _) := Token.scan text.toList
  PartialDocument.start.document (Event.ofTokens ts)

end WorkflowCompiler.Yaml
