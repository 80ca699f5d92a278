import WorkflowCompiler.Json.Basic

/-!
The written form of JSON values. One printer serves both layouts: the compact one without blanks,
whose text is fingerprinted, and the indented one.
-/

namespace WorkflowCompiler.Json

def hexDigit (n : Nat) : Char := (Nat.digitChar n)

/-- Quotes, backslashes and control characters are escaped, and nothing else. -/
def escapeChar (c : Char) : List Char :=
  match c with
  | '"' => ['\\', '"']
  | '\\' => ['\\', '\\']
  | '\x08' => ['\\', 'b']
  | '\t' => ['\\', 't']
  | '\n' => ['\\', 'n']
  | '\x0c' => ['\\', 'f']
  | '\r' => ['\\', 'r']
  | c =>
    if c.toNat < 0x20 then ['\\', 'u', '0', '0', hexDigit (c.toNat / 16), hexDigit (c.toNat % 16)]
    else [c]

def quoted (s : String) : List Char := '"' :: s.toList.flatMap escapeChar ++ ['"']

def intText (i : Int) : List Char :=
  if i < 0 then '-' :: Nat.toDigits 10 i.natAbs else Nat.toDigits 10 i.natAbs

structure Layout where
  /-- What stands before each item of a container at this depth, and before its closing bracket. -/
  gap : Nat → List Char
  /-- What stands between a key and its value. -/
  colon : List Char

def Layout.compact : Layout := ⟨fun _ => [], [':']⟩

/-- Two blanks for each level, and a blank after the colon. -/
def Layout.indented : Layout := ⟨fun depth => '\n' :: List.replicate (2 * depth) ' ', [':', ' ']⟩

mutual

def render (layout : Layout) (depth : Nat) : Json → List Char
  | .null => "null".toList
  | .bool true => "true".toList
  | .bool false => "false".toList
  | .int i => intText i
  | .float x => x.scientificText
  | .str s => quoted s
  | .arr [] => ['[', ']']
  | .arr (x :: r) => '[' :: renderItems layout (depth + 1) (x :: r) ++ layout.gap depth ++ [']']
  | .obj [] => ['\x7b', '\x7d']
  | .obj (m :: r) =>
    '\x7b' :: renderMembers layout (depth + 1) (m :: r) ++ layout.gap depth ++ ['\x7d']

/-- The items with their gaps, separated by commas. -/
def renderItems (layout : Layout) (depth : Nat) : List Json → List Char
  | [] => []
  | [x] => layout.gap depth ++ render layout depth x
  | x :: r => layout.gap depth ++ render layout depth x ++ ',' :: renderItems layout depth r

def renderMembers (layout : Layout) (depth : Nat) : List (String × Json) → List Char
  | [] => []
  | [(k, x)] => layout.gap depth ++ quoted k ++ layout.colon ++ render layout depth x
  | (k, x) :: r =>
    layout.gap depth ++ quoted k ++ layout.colon ++ render layout depth x ++
      ',' :: renderMembers layout depth r

end

/-- The text without blanks. -/
def compact (j : Json) : String := String.ofList (render .compact 0 j)

/-- The text with one item to a line. -/
def pretty (j : Json) : String := String.ofList (render .indented 0 j)

end WorkflowCompiler.Json
