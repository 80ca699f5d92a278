import WorkflowCompiler.Text.Hex
import WorkflowCompiler.Yaml.Character

/-!
Reading scalars from YAML text: plain words over one or more lines, quoted texts, and blocks of lines.
Each function walks over the characters once and returns the text with the place after it, or nothing
when the text is malformed.
-/

namespace WorkflowCompiler.Yaml

/-- Text under construction. The characters are kept last one first; blanks and line breaks wait until it is
known whether anything follows them. -/
structure Folding where
  text : List Char
  blanks : List Char
  firstBreak : Option Char
  moreBreaks : List Char
  /-- Whether a line break has come since the last word. -/
  onNewLine : Bool

namespace Folding

def empty : Folding := ⟨[], [], none, [], false⟩

def push (f : Folding) (c : Char) : Folding := { f with text := c :: f.text }

def addBlank (f : Folding) (c : Char) : Folding :=
  if f.onNewLine then f else { f with blanks := c :: f.blanks }

def addBreak (f : Folding) (c : Char) : Folding :=
  if f.onNewLine then { f with moreBreaks := c :: f.moreBreaks }
  else { f with blanks := [], firstBreak := some c, onNewLine := true }

/-- What waits is put into the text. A single line feed becomes a blank, of several the first is dropped. -/
def settle (f : Folding) : Folding :=
  let text :=
    if f.onNewLine then
      match f.firstBreak with
      | some '\n' => if f.moreBreaks.isEmpty then ' ' :: f.text else f.moreBreaks ++ f.text
      | some c => f.moreBreaks ++ c :: f.text
      | none => f.moreBreaks ++ f.text
    else f.blanks ++ f.text
  ⟨text, [], none, [], false⟩

def result (f : Folding) : String := String.ofList f.text.reverse

end Folding

/-- A scalar with the place after it. -/
structure Scanned where
  text : String
  cursor : Cursor

/-- Where in a plain scalar the reader stands. -/
inductive PlainPlace where
  | start | inWord | afterBlank
  deriving DecidableEq

def endsPlainInFlow (c : Char) : Bool :=
  c == ',' || c == '[' || c == ']' || c == '\x7b' || c == '\x7d'

/-- A colon before one of these ends no key in flow context. -/
def badAfterColon : List Char → Bool
  | c :: _ => endsPlainInFlow c || c == '?'
  | [] => false

/-- Reads a plain scalar. Outside brackets it goes on in the next line when that is indented by at least
`indent`. What waits at the end is not part of the scalar. -/
def readPlain (inFlow : Bool) (indent : Int) (cs : List Char) (m : Mark) (place : PlainPlace)
    (f : Folding) : Option (Folding × Cursor) :=
  let stop := some (f, ⟨cs, m⟩)
  match cs with
  | [] => stop
  | '\r' :: '\n' :: r => readPlain inFlow indent r (m.newLine 2) .afterBlank (f.addBreak '\n')
  | c :: r =>
    if isBreak c then
      readPlain inFlow indent r (m.newLine 1) .afterBlank (f.addBreak (breakChar c))
    else if isBlank c then
      if f.onNewLine ∧ (m.column : Int) < indent ∧ c = '\t' then none
      else readPlain inFlow indent r (m.skip 1) .afterBlank (f.addBlank c)
    else if place = .afterBlank ∧ !inFlow ∧ (m.column : Int) < indent then stop
    else if place ≠ .inWord ∧ (atDocumentMark (c :: r) m.column ∨ c = '#') then stop
    else if inFlow ∧ c = ':' ∧ badAfterColon r then none
    else if (c = ':' ∧ endsWord r) ∨ (inFlow ∧ endsPlainInFlow c) then stop
    else readPlain inFlow indent r (m.skip 1) .inWord (f.settle.push c)

def simpleEscape : Char → Option Char
  | '0' => some '\x00'
  | 'a' => some '\x07'
  | 'b' => some '\x08'
  | 't' => some '\t'
  | '\t' => some '\t'
  | 'n' => some '\n'
  | 'v' => some '\x0b'
  | 'f' => some '\x0c'
  | 'r' => some '\r'
  | 'e' => some '\x1b'
  | ' ' => some ' '
  | '"' => some '"'
  | '/' => some '/'
  | '\\' => some '\\'
  | 'N' => some '\u0085'
  | '_' => some '\u00a0'
  | 'L' => some '\u2028'
  | 'P' => some '\u2029'
  | _ => none

/-- The character with the number written by hexadecimal digits; halves of surrogate pairs are none. -/
def hexChar (ds : List Char) : Option Char := do
  let vs ← ds.mapM Text.hexValue
  let n := vs.foldl (fun n v => n * 16 + v) 0
  if (0xD800 ≤ n ∧ n ≤ 0xDFFF) ∨ 0x10FFFF < n then none else some (Char.ofNat n)

/-- Reads the rest of a quoted scalar. After blanks, what waits is settled before the next word, and a line that
marks the start or end of a document is an error. -/
def readQuoted (single : Bool) (cs : List Char) (m : Mark) (afterBlank : Bool) (f : Folding) :
    Option Scanned :=
  match cs with
  | [] => none
  | '\r' :: '\n' :: r => readQuoted single r (m.newLine 2) true (f.addBreak '\n')
  | c :: r =>
    if isBreak c then readQuoted single r (m.newLine 1) true (f.addBreak (breakChar c))
    else if isBlank c then readQuoted single r (m.skip 1) true (f.addBlank c)
    else if afterBlank ∧ atDocumentMark (c :: r) m.column then none
    else
      let f := if afterBlank then f.settle else f
      if c = (if single then '\'' else '"') then
        match single, r with
        | true, '\'' :: r => readQuoted single r (m.skip 2) false (f.push '\'')
        | _, r => some ⟨f.result, ⟨r, m.skip 1⟩⟩
      else if !single ∧ c = '\\' then
        match r with
        | '\r' :: '\n' :: r =>
          readQuoted single r ((m.skip 1).newLine 2) true { f with onNewLine := true }
        | 'x' :: a :: b :: r =>
          match hexChar [a, b] with
          | some ch => readQuoted single r (m.skip 4) false (f.push ch)
          | none => none
        | 'u' :: a :: b :: c :: d :: r =>
          match hexChar [a, b, c, d] with
          | some ch => readQuoted single r (m.skip 6) false (f.push ch)
          | none => none
        | 'U' :: a :: b :: c :: d :: e :: g :: h :: i :: r =>
          match hexChar [a, b, c, d, e, g, h, i] with
          | some ch => readQuoted single r (m.skip 10) false (f.push ch)
          | none => none
        | e :: r =>
          if isBreak e then
            readQuoted single r ((m.skip 1).newLine 1) true { f with onNewLine := true }
          else
            match simpleEscape e with
            | some ch => readQuoted single r (m.skip 2) false (f.push ch)
            | none => none
        | [] => none
      else readQuoted single r (m.skip 1) false (f.push c)

/-- What is kept of the line breaks at the end of a block. -/
inductive Chomping where
  | strip | clip | keep
  deriving DecidableEq

/-- A block under construction; texts are kept last character first. -/
structure Block where
  text : List Char
  lineBreak : Option Char
  moreBreaks : List Char
  /-- Whether the last line began with a blank. -/
  afterIndented : Bool
  /-- The column of the block's lines; zero as long as it is not known. -/
  indent : Nat
  deepest : Nat

namespace Block

/-- Begins a line whose first character is `c`. In a folded block a line feed between two lines that do not begin
with a blank becomes a blank, or goes away before further line breaks. -/
def beginLine (b : Block) (folded : Bool) (c : Char) : Block :=
  let text :=
    if folded ∧ b.lineBreak = some '\n' ∧ !b.afterIndented ∧ !isBlank c then
      if b.moreBreaks.isEmpty then ' ' :: b.text else b.text
    else b.lineBreak.toList ++ b.text
  { b with
    text := b.moreBreaks ++ text
    lineBreak := none
    moreBreaks := []
    afterIndented := isBlank c }

def finish (b : Block) (chomping : Chomping) : String :=
  let text := if chomping = .strip then b.text else b.lineBreak.toList ++ b.text
  let text := if chomping = .keep then b.moreBreaks ++ text else text
  String.ofList text.reverse

/-- The indentation is that of the deepest of the first lines up to the first one that is not empty, but more
than that of the block's parent. -/
def settleIndent (b : Block) (parent : Int) : Block :=
  if b.indent = 0 then { b with indent := max (max b.deepest (parent + 1).toNat) 1 } else b

end Block

/-- Reads the lines of a block. Between lines, blanks up to the indentation and empty lines are taken in. -/
def readBlock (folded : Bool) (chomping : Chomping) (parent : Int) (cs : List Char) (m : Mark)
    (inLine : Bool) (b : Block) : Option Scanned :=
  match inLine, cs with
  | true, [] =>
    some ⟨b.finish chomping, ⟨[], m⟩⟩
  | false, [] =>
    some ⟨b.finish chomping, ⟨[], m⟩⟩
  | true, '\r' :: '\n' :: r =>
    readBlock folded chomping parent r (m.newLine 2) false { b with lineBreak := some '\n' }
  | true, c :: r =>
    if isBreak c then
      readBlock folded chomping parent r (m.newLine 1) false
        { b with lineBreak := some (breakChar c) }
    else readBlock folded chomping parent r (m.skip 1) true { b with text := c :: b.text }
  | false, c :: r =>
    if (b.indent = 0 ∨ m.column < b.indent) ∧ c = ' ' then
      readBlock folded chomping parent r (m.skip 1) false b
    else
      let b := { b with deepest := max b.deepest m.column }
      if (b.indent = 0 ∨ m.column < b.indent) ∧ c = '\t' then none
      else if isBreak c then
        match c, r with
        | '\r', '\n' :: r =>
          readBlock folded chomping parent r (m.newLine 2) false
            { b with moreBreaks := '\n' :: b.moreBreaks }
        | c, r =>
          readBlock folded chomping parent r (m.newLine 1) false
            { b with moreBreaks := breakChar c :: b.moreBreaks }
      else
        let b := b.settleIndent parent
        if m.column = b.indent then
          readBlock folded chomping parent r (m.skip 1) true
            { b.beginLine folded c with text := c :: (b.beginLine folded c).text }
        else some ⟨b.finish chomping, ⟨c :: r, m⟩⟩

/-- Reads the header of a block: how it ends and by how much it is indented, in either order. -/
def readBlockHeader (c : Cursor) : Option (Chomping × Nat × Cursor) :=
  let chomp (c : Cursor) : Chomping × Cursor :=
    match c.rest with
    | '+' :: _ => (.keep, c.skip 1)
    | '-' :: _ => (.strip, c.skip 1)
    | _ => (.clip, c)
  let width (c : Cursor) : Option (Nat × Cursor) :=
    match c.rest with
    | d :: _ =>
      if d = '0' then none
      else if d.isDigit then some (d.toNat - '0'.toNat, c.skip 1)
      else some (0, c)
    | [] => some (0, c)
  match chomp c with
  | (.clip, c) => do
    let (n, c) ← width c
    let (chomping, c) := if n = 0 then (.clip, c) else chomp c
    return (chomping, n, c)
  | (chomping, c) => do
    let (n, c) ← width c
    return (chomping, n, c)

/-- Reads a block scalar after its indicator. -/
def readBlockScalar (folded : Bool) (parent : Int) (c : Cursor) : Option Scanned := do
  let (chomping, n, c) ← readBlockHeader c
  let c := c.skipComment
  if !(c.rest.isEmpty || (c.rest.head?.any isBreak)) then none
  let c := c.skipBreak
  let indent := if n = 0 then 0 else if 0 ≤ parent then parent.toNat + n else n
  readBlock folded chomping parent c.rest c.mark false ⟨[], none, [], false, indent, 0⟩

end WorkflowCompiler.Yaml
