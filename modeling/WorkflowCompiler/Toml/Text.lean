import WorkflowCompiler.Text.Hex

/-!
Blanks, line ends, strings and keys of TOML text. A reader takes what it wants from the front of the characters and
gives the rest, or nothing when the text is malformed. Line ends inside a string become line feeds.
-/

namespace WorkflowCompiler.Toml

open Text (hexValue)

/-- What reads one thing from the front of a text. -/
abbrev Scan (α : Type) := List Char → Option (α × List Char)

def isBlank (c : Char) : Bool := c == ' ' || c == '\t'

/-- All characters but the control characters of ASCII, of which only the tab counts. -/
def isPlain (c : Char) : Bool := c == '\t' || (' ' ≤ c && c != '\x7f')

def dropBlanks (cs : List Char) : List Char := cs.dropWhile isBlank

/-- What follows a line end, if there is one. -/
def newline : List Char → Option (List Char)
  | '\n' :: r => some r
  | '\r' :: '\n' :: r => some r
  | _ => none

/-- Passes over blanks and line ends. -/
def dropBreaks : List Char → List Char
  | '\r' :: '\n' :: r => dropBreaks r
  | c :: r => if isBlank c || c == '\n' then dropBreaks r else c :: r
  | [] => []

/-- What follows the end of a statement: blanks, maybe a comment, and a line end or the end of the text. -/
def endOfLine (cs : List Char) : Option (List Char) :=
  let r := match dropBlanks cs with
    | '#' :: r => r.dropWhile isPlain
    | r => r
  match r with
  | [] => some []
  | r => newline r

theorem length_dropWhile (p : Char → Bool) (cs : List Char) :
    (cs.dropWhile p).length ≤ cs.length :=
  (List.dropWhile_sublist p).length_le

theorem length_dropBlanks (cs : List Char) : (dropBlanks cs).length ≤ cs.length :=
  length_dropWhile isBlank cs

theorem length_of_newline {cs r : List Char} (h : newline cs = some r) : r.length < cs.length := by
  unfold newline at h
  split at h
  · cases h
    exact Nat.lt_succ_self _
  · cases h
    exact Nat.lt_succ_of_lt (Nat.lt_succ_self _)
  · cases h

theorem length_dropBreaks (cs : List Char) : (dropBreaks cs).length ≤ cs.length := by
  fun_induction dropBreaks cs with
  | case1 r ih => simp only [List.length_cons]; omega
  | case2 c r _ _ ih => simp only [List.length_cons]; omega
  | case3 => simp
  | case4 => simp

/-- Passes over blanks, comments and line ends. -/
def dropLines (cs : List Char) : List Char :=
  match cs with
  | [] => []
  | '\r' :: '\n' :: r => dropLines r
  | c :: r =>
    if isBlank c || c == '\n' then dropLines r
    else if c == '#' then dropLines (r.dropWhile isPlain)
    else c :: r
termination_by cs.length
decreasing_by
  · simp only [List.length_cons]; omega
  · simp
  · have := length_dropWhile isPlain r
    simp only [List.length_cons]; omega

def simpleEscape : Char → Option Char
  | 'b' => some '\x08'
  | 't' => some '\t'
  | 'n' => some '\n'
  | 'f' => some '\x0c'
  | 'r' => some '\r'
  | '"' => some '"'
  | '\\' => some '\\'
  | _ => none

/-- A character by its number in `n` hexadecimal digits. -/
def readCodePoint (n : Nat) : Scan Char := fun cs =>
  if cs.length < n then none
  else do
    let digits ← (cs.take n).mapM hexValue
    let code := digits.foldl (fun v d => v * 16 + d) 0
    if code.isValidChar then some (Char.ofNat code, cs.drop n) else none

/-- What a backslash and the characters after it stand for. -/
def readEscape : Scan Char
  | 'u' :: r => readCodePoint 4 r
  | 'U' :: r => readCodePoint 8 r
  | c :: r => (simpleEscape c).map fun e => (e, r)
  | [] => none

theorem length_of_readCodePoint {n : Nat} {cs r : List Char} {c : Char}
    (h : readCodePoint n cs = some (c, r)) : r.length ≤ cs.length := by
  unfold readCodePoint at h
  split at h
  · simp at h
  · simp only [Option.bind_eq_bind, Option.bind_eq_some_iff] at h
    obtain ⟨ds, -, h⟩ := h
    split at h
    · simp only [Option.some.injEq, Prod.mk.injEq] at h
      rw [← h.2, List.length_drop]
      omega
    · simp at h

theorem length_of_readEscape {cs r : List Char} {c : Char} (h : readEscape cs = some (c, r)) :
    r.length < cs.length := by
  unfold readEscape at h
  split at h
  · have := length_of_readCodePoint h
    simp only [List.length_cons]; omega
  · have := length_of_readCodePoint h
    simp only [List.length_cons]; omega
  · obtain ⟨e, -, he⟩ := Option.map_eq_some_iff.1 h
    obtain ⟨-, rfl⟩ := Prod.mk.inj he
    simp
  · simp at h

/-- The rest of a string in double quotes on one line. The characters so far are in `acc`, last one first. -/
def readBasic (acc cs : List Char) : Option (List Char × List Char) :=
  match cs with
  | [] => none
  | '"' :: r => some (acc.reverse, r)
  | '\\' :: r =>
    match h : readEscape r with
    | some (c, r') =>
      have := length_of_readEscape h
      readBasic (c :: acc) r'
    | none => none
  | c :: r => if isPlain c then readBasic (c :: acc) r else none
termination_by cs.length
decreasing_by all_goals simp only [List.length_cons]; omega

/-- The rest of a string in three double quotes. One or two quotes may stand anywhere in it, also right before the
closing ones. A backslash at the end of a line takes away the line end and the blanks and line ends after it. -/
def readLongBasic (acc cs : List Char) : Option (List Char × List Char) :=
  match cs with
  | [] => none
  | '"' :: '"' :: '"' :: '"' :: '"' :: r => some (acc.reverse ++ ['"', '"'], r)
  | '"' :: '"' :: '"' :: '"' :: r => some (acc.reverse ++ ['"'], r)
  | '"' :: '"' :: '"' :: r => some (acc.reverse, r)
  | '\\' :: r =>
    match h : newline (dropBlanks r) with
    | some r' =>
      have := length_of_newline h
      have := length_dropBlanks r
      have := length_dropBreaks r'
      readLongBasic acc (dropBreaks r')
    | none =>
      match h : readEscape r with
      | some (c, r') =>
        have := length_of_readEscape h
        readLongBasic (c :: acc) r'
      | none => none
  | '\r' :: '\n' :: r => readLongBasic ('\n' :: acc) r
  | c :: r => if isPlain c || c == '\n' then readLongBasic (c :: acc) r else none
termination_by cs.length
decreasing_by all_goals simp only [List.length_cons]; omega

/-- The rest of a string in single quotes on one line. Nothing in it is an escape. -/
def readLiteral (cs : List Char) : Option (List Char × List Char) :=
  let inside (c : Char) : Bool := isPlain c && c != '\''
  match cs.dropWhile inside with
  | '\'' :: r => some (cs.takeWhile inside, r)
  | _ => none

/-- The rest of a string in three single quotes, with the same rule for quotes in it as in double quotes. -/
def readLongLiteral (acc : List Char) : List Char → Option (List Char × List Char)
  | [] => none
  | '\'' :: '\'' :: '\'' :: '\'' :: '\'' :: r => some (acc.reverse ++ ['\'', '\''], r)
  | '\'' :: '\'' :: '\'' :: '\'' :: r => some (acc.reverse ++ ['\''], r)
  | '\'' :: '\'' :: '\'' :: r => some (acc.reverse, r)
  | '\r' :: '\n' :: r => readLongLiteral ('\n' :: acc) r
  | c :: r => if isPlain c || c == '\n' then readLongLiteral (c :: acc) r else none

/-- A line end right after the opening quotes is not part of the string. -/
def afterOpening (cs : List Char) : List Char := (newline cs).getD cs

/-- A string of any of the four kinds. -/
def readString (cs : List Char) : Option (String × List Char) :=
  let chars := match cs with
    | '"' :: '"' :: '"' :: r => readLongBasic [] (afterOpening r)
    | '"' :: r => readBasic [] r
    | '\'' :: '\'' :: '\'' :: r => readLongLiteral [] (afterOpening r)
    | '\'' :: r => readLiteral r
    | _ => none
  chars.map fun p => (String.ofList p.1, p.2)

def isBareKeyChar (c : Char) : Bool := c.isAlphanum || c == '-' || c == '_'

/-- One part of a key, with the blanks around it. -/
def readKeyPart (cs : List Char) : Option (String × List Char) :=
  let part := match dropBlanks cs with
    | '"' :: r => readBasic [] r
    | '\'' :: r => readLiteral r
    | r =>
      if (r.takeWhile isBareKeyChar).isEmpty then none
      else some (r.takeWhile isBareKeyChar, r.dropWhile isBareKeyChar)
  part.map fun p => (String.ofList p.1, dropBlanks p.2)

/-- One item or more, divided by a separator. -/
def readSeparated {α : Type} (item : Scan α) (separator : Char) (cs : List Char) :
    Option (List α × List Char) :=
  match item cs with
  | none => none
  | some (a, r) =>
    match r with
    | [] => some ([a], [])
    | c :: r' =>
      if c = separator then
        if r'.length < cs.length then
          (readSeparated item separator r').map fun p => (a :: p.1, p.2)
        else none
      else some ([a], c :: r')
termination_by cs.length

/-- How many levels a document may have, counted in the parts of a key or in nested values. -/
def maxLevels : Nat := 79

/-- A key with dots between its parts. -/
def readKey (cs : List Char) : Option (List String × List Char) := do
  let (parts, r) ← readSeparated readKeyPart '.' cs
  if parts.length ≤ maxLevels then some (parts, r) else none

end WorkflowCompiler.Toml
