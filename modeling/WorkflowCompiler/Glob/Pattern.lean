/-!
Patterns of file names. A question mark stands for one character, a star for any number of them, brackets for one
character of a class, and two stars that form a whole part of a path for any number of directories.
-/

namespace WorkflowCompiler.Glob

inductive Fault where
  /-- Brackets that are not closed or hold nothing. -/
  | badClass
  | manyStars
  /-- Two stars next to something else. -/
  | notAlone
  deriving DecidableEq, Repr

def Fault.message : Fault → String
  | .badClass => "invalid range pattern"
  | .manyStars => "wildcards are either regular `*` or recursive `**`"
  | .notAlone => "recursive wildcards must form a single path component"

/-- A fault in a pattern and the position near which it is, counted in characters. -/
structure PatternError where
  position : Nat
  fault : Fault
  deriving DecidableEq, Repr

def PatternError.message (e : PatternError) : String :=
  "Pattern syntax error near position " ++ toString e.position ++ ": " ++ e.fault.message

/-- The characters from one to another, both included. -/
structure Span where
  first : Char
  last : Char
  deriving DecidableEq, Repr

def Span.contains (s : Span) (c : Char) : Bool := s.first ≤ c && c ≤ s.last

/-- The characters inside brackets. A hyphen between two characters makes a range. -/
def readSpans : List Char → List Span
  | a :: '-' :: b :: r => ⟨a, b⟩ :: readSpans r
  | a :: r => ⟨a, a⟩ :: readSpans r
  | [] => []

inductive Piece where
  | char (c : Char)
  | anyChar
  | anyText
  | oneOf (spans : List Span)
  | noneOf (spans : List Span)
  /-- Two stars: any number of directories. -/
  | anyDepth
  deriving DecidableEq, Repr

/-- The characters up to a closing bracket that is not the first of them, and what follows it. -/
def cutClass : List Char → Option (List Char × List Char)
  | [] => none
  | a :: r =>
    match r.dropWhile (· ≠ ']') with
    | _ :: after => some (a :: r.takeWhile (· ≠ ']'), after)
    | [] => none

/-- The class after an opening bracket. -/
def readClass : List Char → Option (Piece × List Char)
  | '!' :: r => (cutClass r).map fun p => (.noneOf (readSpans p.1), p.2)
  | r => (cutClass r).map fun p => (.oneOf (readSpans p.1), p.2)

theorem length_of_cutClass {cs inside r : List Char} (h : cutClass cs = some (inside, r)) :
    r.length < cs.length := by
  unfold cutClass at h
  split at h
  · simp at h
  · rename_i a s
    split at h
    · rename_i b after hs
      have := (List.dropWhile_sublist (· ≠ ']') (l := s)).length_le
      simp only [hs, List.length_cons] at this
      simp only [Option.some.injEq, Prod.mk.injEq] at h
      rw [← h.2, List.length_cons]
      omega
    · simp at h

theorem length_of_readClass {cs r : List Char} {p : Piece} (h : readClass cs = some (p, r)) :
    r.length < cs.length := by
  unfold readClass at h
  split at h
  · obtain ⟨q, hq, he⟩ := Option.map_eq_some_iff.1 h
    have := length_of_cutClass hq
    obtain ⟨-, rfl⟩ := Prod.mk.inj he
    simp only [List.length_cons]
    omega
  · obtain ⟨q, hq, he⟩ := Option.map_eq_some_iff.1 h
    have := length_of_cutClass hq
    obtain ⟨-, rfl⟩ := Prod.mk.inj he
    omega

/-- The pieces of a pattern from a position on. `before` is the character in front of it. -/
def readPieces (position : Nat) (before : Option Char) (cs : List Char) :
    Except PatternError (List Piece) :=
  match cs with
  | [] => .ok []
  | '*' :: '*' :: '*' :: _ => .error ⟨position + 2, .manyStars⟩
  | '*' :: '*' :: r =>
    if before.any (· ≠ '/') then .error ⟨position - 1, .notAlone⟩
    else
      match r with
      | [] => .ok [.anyDepth]
      | '/' :: r => (readPieces (position + 3) (some '/') r).map (.anyDepth :: ·)
      | _ => .error ⟨position + 2, .notAlone⟩
  | '*' :: r => (readPieces (position + 1) (some '*') r).map (.anyText :: ·)
  | '?' :: r => (readPieces (position + 1) (some '?') r).map (.anyChar :: ·)
  | '[' :: r =>
    match h : readClass r with
    | some (piece, r') =>
      have := length_of_readClass h
      (readPieces (position + 1 + (r.length - r'.length)) (some ']') r').map (piece :: ·)
    | none => .error ⟨position, .badClass⟩
  | c :: r => (readPieces (position + 1) (some c) r).map (.char c :: ·)
termination_by cs.length
decreasing_by all_goals simp only [List.length_cons]; omega

/-- Whether one character fits one piece. -/
def Piece.fits (p : Piece) (c : Char) : Bool :=
  match p with
  | .char d => c == d
  | .anyChar => true
  | .oneOf spans => spans.any fun s => s.contains c
  | .noneOf spans => !spans.any fun s => s.contains c
  | .anyText | .anyDepth => false

abbrev Pattern := List Piece

namespace Pattern

def ofText (text : String) : Except PatternError Pattern := readPieces 0 none text.toList

/-- The text that the pattern stands for when it has no wildcards. -/
def literal? : Pattern → Option String
  | [] => some ""
  | .char c :: r => (literal? r).map fun s => String.ofList [c] ++ s
  | _ => none

def isAnyDepth (p : Pattern) : Bool := p == [.anyDepth]

/-- Only a pattern that begins with a dot stands for the directory itself and the one above. -/
def startsWithDot (p : Pattern) : Bool := p.head? == some (.char '.')

/-- Whether a name fits the pattern from its first to its last character. -/
def fits : Pattern → List Char → Bool
  | [], cs => cs.isEmpty
  | .anyText :: r, [] => fits r []
  | .anyText :: r, c :: cs => fits r (c :: cs) || fits (.anyText :: r) cs
  | p :: r, c :: cs => p.fits c && fits r cs
  | _ :: _, [] => false
termination_by p cs => p.length + cs.length

end Pattern

end WorkflowCompiler.Glob
