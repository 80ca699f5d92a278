/-!
Character classes of YAML text, and positions in it. A carriage return with a line feed is one line break.
-/

namespace WorkflowCompiler.Yaml

/-- What a text may hold at all. -/
def isAllowed (c : Char) : Bool :=
  let n := c.toNat
  n == 0x09 || n == 0x0A || n == 0x0D || (0x20 ≤ n && n ≤ 0x7E) || n == 0x85 ||
    (0xA0 ≤ n && n ≤ 0xFFFD) || 0x10000 ≤ n

def byteOrderMark : Char := '\ufeff'

def isBreak (c : Char) : Bool :=
  c == '\n' || c == '\r' || c == '\u0085' || c == '\u2028' || c == '\u2029'

def isBlank (c : Char) : Bool := c == ' ' || c == '\t'

def isBlankOrBreak (c : Char) : Bool := isBlank c || isBreak c

/-- Blank, line break or end of the text. -/
def endsWord : List Char → Bool
  | [] => true
  | c :: _ => isBlankOrBreak c

def isWordChar (c : Char) : Bool := c.isAlphanum || c == '_' || c == '-'

/-- The two separators of Unicode stay as they are; every other line break is read as a line feed. -/
def breakChar (c : Char) : Char := if c == '\u2028' || c == '\u2029' then c else '\n'

structure Mark where
  index : Nat
  line : Nat
  column : Nat
  deriving DecidableEq, Repr

namespace Mark

def start : Mark := ⟨0, 0, 0⟩

def skip (m : Mark) (n : Nat) : Mark := { m with index := m.index + n, column := m.column + n }

/-- After a line break of `n` characters. -/
def newLine (m : Mark) (n : Nat) : Mark := ⟨m.index + n, m.line + 1, 0⟩

end Mark

/-- A place in a text. -/
structure Cursor where
  rest : List Char
  mark : Mark

/-- A line that holds only a mark of a document's start or end, or begins with one and a blank. -/
def atDocumentMark (cs : List Char) (column : Nat) : Bool :=
  column == 0 &&
    match cs with
    | '-' :: '-' :: '-' :: r => endsWord r
    | '.' :: '.' :: '.' :: r => endsWord r
    | _ => false

/-- Characters of a class, and the place after them. -/
def Cursor.span (c : Cursor) (p : Char → Bool) : List Char × Cursor :=
  let word := c.rest.takeWhile p
  (word, ⟨c.rest.dropWhile p, c.mark.skip word.length⟩)

def Cursor.skip (c : Cursor) (n : Nat) : Cursor := ⟨c.rest.drop n, c.mark.skip n⟩

def Cursor.dropWhile (c : Cursor) (p : Char → Bool) : Cursor := (c.span p).2

/-- Passes over one line break, if there is one. -/
def Cursor.skipBreak (c : Cursor) : Cursor :=
  match c.rest with
  | '\r' :: '\n' :: r => ⟨r, c.mark.newLine 2⟩
  | b :: r => if isBreak b then ⟨r, c.mark.newLine 1⟩ else c
  | [] => c

/-- Passes over blanks and a comment. -/
def Cursor.skipComment (c : Cursor) : Cursor :=
  let c := c.dropWhile isBlank
  if c.rest.head? = some '#' then c.dropWhile fun d => !isBreak d else c

end WorkflowCompiler.Yaml
