import WorkflowCompiler.Text.Hex
import WorkflowCompiler.Yaml.Character

/-!
Reading anchors, tags and directives from YAML text.
-/

namespace WorkflowCompiler.Yaml

/-- The name of an anchor or alias. It must end at a blank or at one of a few indicators. -/
def readAnchorName (c : Cursor) : Option (String × Cursor) :=
  let (word, c) := c.span isWordChar
  let ends := endsWord c.rest ||
    c.rest.head?.any fun d =>
      d == '?' || d == ':' || d == ',' || d == ']' || d == '\x7d' || d == '%' || d == '@' || d == '`'
  if word.isEmpty || !ends then none else some (String.ofList word, c)

/-- A handle of a tag: an exclamation mark, or a word between two of them. Without the second mark the word may
still belong to the tag itself. -/
def readHandle (c : Cursor) : Option (List Char × Cursor) :=
  match c.rest with
  | '!' :: _ =>
    let (word, c) := (c.skip 1).span isWordChar
    match c.rest with
    | '!' :: _ => some ('!' :: word ++ ['!'], c.skip 1)
    | _ => some ('!' :: word, c)
  | _ => none

def isUriChar (verbatim : Bool) (c : Char) : Bool :=
  isWordChar c || ";/?:@&=+$.!~*'()".toList.contains c ||
    (verbatim && (c == ',' || c == '[' || c == ']'))

/-- How many bytes a character takes that begins with this one. -/
def utf8Width (octet : Nat) : Option Nat :=
  if octet < 0x80 then some 1
  else if 0xC0 ≤ octet ∧ octet < 0xE0 then some 2
  else if 0xE0 ≤ octet ∧ octet < 0xF0 then some 3
  else if 0xF0 ≤ octet ∧ octet < 0xF8 then some 4
  else none

def readOctet : List Char → Option (Nat × List Char)
  | '%' :: a :: b :: r => do
    let a ← Text.hexValue a
    let b ← Text.hexValue b
    return (a * 16 + b, r)
  | _ => none

/-- The further bytes of a character. -/
def readTrailing : Nat → Nat → List Char → Option (Nat × List Char)
  | 0, n, cs => some (n, cs)
  | k + 1, n, cs => do
    let (octet, r) ← readOctet cs
    if octet < 0x80 ∨ 0xC0 ≤ octet then none
    readTrailing k (n * 64 + (octet - 0x80)) r

/-- A character written byte by byte. -/
def readEscaped (cs : List Char) : Option (Char × List Char) := do
  let (octet, r) ← readOctet cs
  let width ← utf8Width octet
  let lead := match width with
    | 1 => octet
    | 2 => octet - 0xC0
    | 3 => octet - 0xE0
    | _ => octet - 0xF0
  let (n, r) ← readTrailing (width - 1) lead r
  return (Char.ofNat n, r)

/-- The characters of a tag, last one first, and the place after them. Every round takes at least one character,
so `fuel` need not be larger than their number. -/
def readUriChars (verbatim : Bool) : Nat → List Char → Cursor → Option (List Char × Cursor)
  | 0, acc, c => some (acc, c)
  | fuel + 1, acc, c =>
    match c.rest with
    | '%' :: _ => do
      let (ch, r) ← readEscaped c.rest
      readUriChars verbatim fuel (ch :: acc) ⟨r, c.mark.skip (c.rest.length - r.length)⟩
    | d :: r =>
      if isUriChar verbatim d then readUriChars verbatim fuel (d :: acc) ⟨r, c.mark.skip 1⟩
      else some (acc, c)
    | [] => some (acc, c)

/-- A tag's text after what has been read of it; it must not be empty. -/
def readUri (verbatim : Bool) (head : List Char) (c : Cursor) : Option (String × Cursor) := do
  let (acc, c) ← readUriChars verbatim c.rest.length [] c
  let text := head.drop 1 ++ acc.reverse
  if head.isEmpty ∧ text.isEmpty then none else some (String.ofList text, c)

/-- A tag as its handle and the rest of it. The mark alone has an empty handle. -/
def readTag (inFlow : Bool) (c : Cursor) : Option (String × String × Cursor) := do
  let (handle, suffix, c) ← match c.rest with
    | '!' :: '<' :: _ => do
      let (suffix, c) ← readUri true [] (c.skip 2)
      match c.rest with
      | '>' :: _ => some ("", suffix, c.skip 1)
      | _ => none
    | _ => do
      let (handle, c) ← readHandle c
      if 1 < handle.length ∧ handle.getLast? = some '!' then
        let (suffix, c) ← readUri false [] c
        some (String.ofList handle, suffix, c)
      else
        let (suffix, c) ← readUri false handle c
        if suffix.isEmpty then some ("", "!", c) else some ("!", suffix, c)
  if endsWord c.rest || (inFlow && c.rest.head? == some ',') then some (handle, suffix, c) else none

/-- The digits of a version number, at most nine. -/
def readVersionNumber (c : Cursor) : Option (Nat × Cursor) :=
  let (digits, c) := c.span Char.isDigit
  if digits.isEmpty ∨ 9 < digits.length then none else some (Nat.ofDigitChars 10 digits 0, c)

inductive Directive where
  | version (major minor : Nat)
  | tag (handle start : String)

/-- A directive after its percent sign, with the rest of its line. -/
def readDirective (c : Cursor) : Option (Directive × Cursor) := do
  let (name, c) := c.span isWordChar
  if name.isEmpty ∨ !endsWord c.rest then none
  let (d, c) ←
    if name = "YAML".toList then do
      let (major, c) ← readVersionNumber (c.dropWhile isBlank)
      match c.rest with
      | '.' :: _ => do
        let (minor, c) ← readVersionNumber (c.skip 1)
        some (.version major minor, c)
      | _ => none
    else if name = "TAG".toList then do
      let (handle, c) ← readHandle (c.dropWhile isBlank)
      if handle ≠ ['!'] ∧ handle.getLast? ≠ some '!' then none
      if !(c.rest.head?.any isBlank) then none
      let (start, c) ← readUri true [] (c.dropWhile isBlank)
      if !endsWord c.rest then none
      some (Directive.tag (String.ofList handle) start, c)
    else none
  let c := c.skipComment
  if !(c.rest.isEmpty || (c.rest.head?.any isBreak)) then none
  return (d, c.skipBreak)

end WorkflowCompiler.Yaml
