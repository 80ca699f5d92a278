import WorkflowCompiler.Yaml.Scalar
import WorkflowCompiler.Yaml.Tag
import WorkflowCompiler.Yaml.Token

/-!
The tokens of a YAML text, in order, and whether the text was read to its end. A token is only given out
once it is certain that no key token comes before it; a malformed place takes away the tokens that were
still waiting.
-/

namespace WorkflowCompiler.Yaml

/-- A place at which a key may have begun. -/
structure PossibleKey where
  /-- The number of the token that would be the key. -/
  number : Nat
  mark : Mark
  /-- A key has to begin here, since the block's other keys begin in this column. -/
  required : Bool

structure Lexer where
  cursor : Cursor
  /-- Tokens that wait, first one first, and how many have been given out. -/
  queue : List Token
  given : Nat
  /-- For each open bracket, and outside of all, the last possible key. -/
  keys : List (Option PossibleKey)
  indent : Int
  indents : List Int
  keyAllowed : Bool
  started : Bool
  ended : Bool

namespace Lexer

def start (cs : List Char) : Lexer :=
  ⟨⟨cs, .start⟩, [], 0, [none], -1, [], true, false, false⟩

/-- The number of open brackets. -/
def flowLevel (l : Lexer) : Nat := l.keys.length - 1

def inFlow (l : Lexer) : Bool := 0 < l.flowLevel

def enqueue (l : Lexer) (t : Token) : Lexer := { l with queue := l.queue ++ [t] }

/-- Puts a token before the one with the given number. -/
def enqueueAt (l : Lexer) (number : Nat) (t : Token) : Lexer :=
  { l with queue := l.queue.take (number - l.given) ++ t :: l.queue.drop (number - l.given) }

/-- Opens a block at a column that is further in. -/
def openBlock (l : Lexer) (column : Nat) (number : Option Nat) (t : Token) : Lexer :=
  if l.inFlow ∨ (column : Int) ≤ l.indent then l
  else
    let l := match number with
      | some n => l.enqueueAt n t
      | none => l.enqueue t
    { l with indents := l.indent :: l.indents, indent := column }

/-- Closes the blocks that are further in than a column. -/
def closeBlocks (l : Lexer) (column : Int) : Lexer :=
  if l.inFlow then l
  else
    let rec close : List Int → Int → Nat → List Int × Int × Nat
      | [], indent, n => ([], indent, n)
      | i :: r, indent, n => if column < indent then close r i (n + 1) else (i :: r, indent, n)
    let (indents, indent, n) := close l.indents l.indent 0
    { l with indents, indent, queue := l.queue ++ List.replicate n .blockEnd }

/-- A key that had to begin somewhere must not be given up. -/
def dropKey (l : Lexer) : Option Lexer :=
  match l.keys with
  | some k :: r => if k.required then none else some { l with keys := none :: r }
  | _ => some l

/-- A key stays on its line and has at most 1024 characters. -/
def isStale (l : Lexer) (k : PossibleKey) : Bool :=
  k.mark.line < l.cursor.mark.line || k.mark.index + 1024 < l.cursor.mark.index

def dropStale (l : Lexer) : Option Lexer := do
  let keys ← l.keys.mapM fun
    | some k => if l.isStale k then (if k.required then none else some none) else some (some k)
    | none => some none
  return { l with keys }

/-- Notes that a key may begin here. -/
def noteKey (l : Lexer) : Option Lexer :=
  if l.keyAllowed then do
    let required := !l.inFlow && l.indent == (l.cursor.mark.column : Int)
    let l ← l.dropKey
    let k : PossibleKey := ⟨l.given + l.queue.length, l.cursor.mark, required⟩
    return { l with keys := some k :: l.keys.drop 1 }
  else some l

/-- Passes over blanks, comments and line breaks. After a line break a key may begin, except within
brackets. Tabs count as blanks only where no key may begin. -/
def skipBlanks (inFlow : Bool) (cs : List Char) (m : Mark) (keyAllowed inComment : Bool) :
    Cursor × Bool :=
  match cs with
  | [] => (⟨[], m⟩, keyAllowed)
  | '\r' :: '\n' :: r => skipBlanks inFlow r (m.newLine 2) (keyAllowed || !inFlow) false
  | c :: r =>
    if isBreak c then skipBlanks inFlow r (m.newLine 1) (keyAllowed || !inFlow) false
    else if inComment then skipBlanks inFlow r (m.skip 1) keyAllowed true
    else if (m.column = 0 ∧ c = byteOrderMark) ∨ c = ' ' ∨
        (c = '\t' ∧ (inFlow ∨ !keyAllowed)) then
      skipBlanks inFlow r (m.skip 1) keyAllowed false
    else if c = '#' then skipBlanks inFlow r (m.skip 1) keyAllowed true
    else (⟨c :: r, m⟩, keyAllowed)

/-- An indicator of one character. -/
def indicator (l : Lexer) (t : Token) : Lexer := { l.enqueue t with cursor := l.cursor.skip 1 }

/-- The end of the stream counts as the end of a line. -/
def endStream (l : Lexer) : Option Lexer := do
  let l ← (l.closeBlocks (-1)).dropKey
  let cursor := if l.cursor.mark.column = 0 then l.cursor else ⟨[], l.cursor.mark.newLine 0⟩
  return { l.enqueue .streamEnd with cursor, keyAllowed := false, ended := true }

def directive (l : Lexer) : Option Lexer := do
  let l ← (l.closeBlocks (-1)).dropKey
  let (d, cursor) ← readDirective (l.cursor.skip 1)
  let t := match d with
    | .version major minor => Token.versionDirective major minor
    | .tag handle start => .tagDirective handle start
  return { l.enqueue t with cursor, keyAllowed := false }

def documentMark (l : Lexer) (t : Token) : Option Lexer := do
  let l ← (l.closeBlocks (-1)).dropKey
  return { l.enqueue t with cursor := l.cursor.skip 3, keyAllowed := false }

def openBracket (l : Lexer) (t : Token) : Option Lexer := do
  let l ← l.noteKey
  return { l.indicator t with keys := none :: l.keys, keyAllowed := true }

def closeBracket (l : Lexer) (t : Token) : Option Lexer := do
  let l ← l.dropKey
  let keys := if l.inFlow then l.keys.drop 1 else l.keys
  return { l.indicator t with keys, keyAllowed := false }

def flowEntry (l : Lexer) : Option Lexer := do
  let l ← l.dropKey
  return { l.indicator .flowEntry with keyAllowed := true }

def blockEntry (l : Lexer) : Option Lexer := do
  if !l.inFlow ∧ !l.keyAllowed then none
  let l := l.openBlock l.cursor.mark.column none .blockSequenceStart
  let l ← l.dropKey
  return { l.indicator .blockEntry with keyAllowed := true }

def explicitKey (l : Lexer) : Option Lexer := do
  if !l.inFlow ∧ !l.keyAllowed then none
  let l := l.openBlock l.cursor.mark.column none .blockMappingStart
  let l ← l.dropKey
  return { l.indicator .key with keyAllowed := !l.inFlow }

/-- The colon after a key. If a key may have begun, it did: its token is put before it. -/
def keyValue (l : Lexer) : Option Lexer :=
  match l.keys with
  | some k :: r =>
    let l := (l.enqueueAt k.number .key).openBlock k.mark.column (some k.number) .blockMappingStart
    some { l.indicator .value with keys := none :: r, keyAllowed := false }
  | _ => do
    if !l.inFlow ∧ !l.keyAllowed then none
    let l := l.openBlock l.cursor.mark.column none .blockMappingStart
    return { l.indicator .value with keyAllowed := !l.inFlow }

def anchor (l : Lexer) (t : String → Token) : Option Lexer := do
  let l ← l.noteKey
  let (name, cursor) ← readAnchorName (l.cursor.skip 1)
  return { l.enqueue (t name) with cursor, keyAllowed := false }

def tag (l : Lexer) : Option Lexer := do
  let l ← l.noteKey
  let (handle, suffix, cursor) ← readTag l.inFlow l.cursor
  return { l.enqueue (.tag handle suffix) with cursor, keyAllowed := false }

def blockScalar (l : Lexer) (folded : Bool) : Option Lexer := do
  let l ← l.dropKey
  let s ← readBlockScalar folded l.indent (l.cursor.skip 1)
  let style := if folded then ScalarStyle.other else .literal
  return { l.enqueue (.scalar s.text style) with cursor := s.cursor, keyAllowed := true }

def quotedScalar (l : Lexer) (single : Bool) : Option Lexer := do
  let l ← l.noteKey
  let c := l.cursor.skip 1
  let s ← readQuoted single c.rest c.mark false .empty
  return { l.enqueue (.scalar s.text .other) with cursor := s.cursor, keyAllowed := false }

def plainScalar (l : Lexer) : Option Lexer := do
  let l ← l.noteKey
  let (f, cursor) ← readPlain l.inFlow (l.indent + 1) l.cursor.rest l.cursor.mark .start .empty
  return { l.enqueue (.scalar f.result .plain) with cursor, keyAllowed := f.onNewLine }

/-- Characters with which no plain scalar begins. -/
def isIndicator (c : Char) : Bool := "-?:,[]\x7b\x7d#&*!|>'\"%@`".toList.contains c

def startsPlain (inFlow : Bool) (c : Char) (r : List Char) : Bool :=
  (!isBlankOrBreak c && !isIndicator c) || (c == '-' && !(r.head?.any isBlank)) ||
    (!inFlow && (c == '?' || c == ':') && !endsWord r)

/-- The token at the place of the cursor, which is no blank. -/
def scanToken (l : Lexer) : Option Lexer :=
  match l.cursor.rest with
  | [] => l.endStream
  | c :: r =>
    if l.cursor.mark.column = 0 ∧ c = '%' then l.directive
    else if atDocumentMark (c :: r) l.cursor.mark.column then
      l.documentMark (if c = '-' then .documentStart else .documentEnd)
    else if c = '[' then l.openBracket .flowSequenceStart
    else if c = '\x7b' then l.openBracket .flowMappingStart
    else if c = ']' then l.closeBracket .flowSequenceEnd
    else if c = '\x7d' then l.closeBracket .flowMappingEnd
    else if c = ',' then l.flowEntry
    else if c = '-' ∧ endsWord r then l.blockEntry
    else if c = '?' ∧ (l.inFlow ∨ endsWord r) then l.explicitKey
    else if c = ':' ∧ (l.inFlow ∨ endsWord r) then l.keyValue
    else if c = '*' then l.anchor .alias
    else if c = '&' then l.anchor .anchor
    else if c = '!' then l.tag
    else if c = '|' ∧ !l.inFlow then l.blockScalar false
    else if c = '>' ∧ !l.inFlow then l.blockScalar true
    else if c = '\'' then l.quotedScalar true
    else if c = '"' then l.quotedScalar false
    else if startsPlain l.inFlow c r then l.plainScalar
    else none

/-- Reads one more token. -/
def fetch (l : Lexer) : Option Lexer :=
  if !l.started then some { l.enqueue .streamStart with started := true }
  else do
    let (cursor, keyAllowed) :=
      skipBlanks l.inFlow l.cursor.rest l.cursor.mark l.keyAllowed false
    let l ← { l with cursor, keyAllowed }.dropStale
    (l.closeBlocks l.cursor.mark.column).scanToken

/-- Whether the next token may still turn out to be a key. -/
def headIsOpen (l : Lexer) : Bool :=
  l.keys.any fun
    | some k => k.number == l.given
    | none => false

/-- Gives out the tokens that are certain. The flag tells whether a required key has failed to come. -/
def give : Nat → Lexer → List Token → Lexer × List Token × Bool
  | 0, l, out => (l, out, true)
  | n + 1, l, out =>
    match l.queue with
    | [] => (l, out, true)
    | t :: r =>
      match l.dropStale with
      | none => (l, out, false)
      | some l =>
        if l.headIsOpen then (l, out, true)
        else give n { l with queue := r, given := l.given + 1 } (t :: out)

/-- Reads tokens until the stream ends or a place is malformed; the tokens are last one first. -/
def run : Nat → Lexer → List Token → List Token × Bool
  | 0, _, out => (out, false)
  | fuel + 1, l, out =>
    match l.fetch with
    | none => (out, false)
    | some l =>
      let (l, out, ok) := give l.queue.length l out
      if !ok then (out, false)
      else if l.ended && l.queue.isEmpty then (out, true)
      else run fuel l out

end Lexer

/-- Every round but the first and the last takes in a character. -/
def Token.scan (cs : List Char) : List Token × Bool :=
  let cs := if cs.head? = some byteOrderMark then cs.drop 1 else cs
  if cs.all isAllowed then
    let (ts, ok) := Lexer.run (cs.length + 3) (.start cs) []
    (ts.reverse, ok)
  else ([], false)

end WorkflowCompiler.Yaml
