import WorkflowCompiler.Text.Split

/-!
Names of executables. A qualified name is a dotted namespace and a simple name, each part being a
segment: a letter or an underscore followed by letters, digits, underscores and hyphens. The
invariant is part of the type, so every value of it can be written and read back.
-/

namespace WorkflowCompiler

def isSegmentStart (c : Char) : Bool := c.isAlpha || c == '_'

def isSegmentChar (c : Char) : Bool := c.isAlphanum || c == '_' || c == '-'

/-- One part of a dotted name. The letters and digits are the ASCII ones. -/
def isSegmentChars : List Char → Bool
  | [] => false
  | c :: r => isSegmentStart c && r.all isSegmentChar

def isSegment (s : String) : Bool := isSegmentChars s.toList

/-- Every part of the text between dots is a segment. -/
def isDotted (s : String) : Bool := (Text.split '.' s.toList).all isSegmentChars

inductive NameError where
  | invalidName (name : String)
  | invalidNamespace (space : String)
  | notQualified (text : String)
  deriving DecidableEq, Repr

def NameError.message : NameError → String
  | .invalidName name => "invalid executable name '" ++ name ++ "'"
  | .invalidNamespace space => "invalid namespace '" ++ space ++ "'"
  | .notQualified text => "'" ++ text ++ "' is not namespace-qualified"

structure QualifiedName where
  space : String
  name : String
  space_dotted : isDotted space = true
  name_segment : isSegment name = true
  deriving DecidableEq

namespace QualifiedName

@[ext] theorem ext {p q : QualifiedName} (hs : p.space = q.space) (hn : p.name = q.name) :
    p = q := by
  cases p; cases q; simp_all

/-- The simple name is looked at before the namespace. -/
def ofParts (space name : String) : Except NameError QualifiedName :=
  if hn : isSegment name = true then
    if hs : isDotted space = true then .ok ⟨space, name, hs, hn⟩
    else .error (.invalidNamespace space)
  else .error (.invalidName name)

def text (q : QualifiedName) : String := q.space ++ "." ++ q.name

/-- Reads a written name. The last dot divides namespace and simple name. -/
def parse (s : String) : Except NameError QualifiedName :=
  match Text.cutLast '.' s.toList with
  | some (space, name) => ofParts (String.ofList space) (String.ofList name)
  | none => .error (.notQualified s)

/-- The key under which the plan of a branch that calls this executable is stored. -/
def branchKey (q : QualifiedName) : String := "branch:" ++ q.text

/-- By namespace first, then by simple name, each in code point order. -/
def before (p q : QualifiedName) : Prop :=
  p.space < q.space ∨ p.space = q.space ∧ p.name < q.name

instance : LT QualifiedName := ⟨before⟩

instance : DecidableLT QualifiedName := fun p q =>
  inferInstanceAs (Decidable (p.space < q.space ∨ p.space = q.space ∧ p.name < q.name))

theorem lt_iff {p q : QualifiedName} :
    p < q ↔ p.space < q.space ∨ p.space = q.space ∧ p.name < q.name := Iff.rfl

theorem lt_trans {p q r : QualifiedName} (h : p < q) (k : q < r) : p < r := by
  rw [lt_iff] at *
  rcases h with h | ⟨h, h'⟩ <;> rcases k with k | ⟨k, k'⟩
  · exact .inl (String.lt_trans h k)
  · exact .inl (k ▸ h)
  · exact .inl (h ▸ k)
  · exact .inr ⟨h.trans k, String.lt_trans h' k'⟩

instance : Trans (fun p q : QualifiedName => p < q) (fun p q => p < q) (fun p q => p < q) :=
  ⟨lt_trans⟩

end QualifiedName

end WorkflowCompiler
