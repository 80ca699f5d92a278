import WorkflowCompiler.Glob.Expansion
import WorkflowCompiler.OrderedMap

/-!
The files that a list of patterns stands for. They come in the order of their paths, each path once, whichever
patterns they fit.
-/

namespace WorkflowCompiler.Glob

structure BadPattern where
  pattern : String
  error : PatternError
  deriving DecidableEq, Repr

def BadPattern.message (e : BadPattern) : String :=
  "invalid pattern '" ++ e.pattern ++ "': " ++ e.error.message

/-- Paths by what they are compared by. -/
abbrev PathSet := SortedMap (List String) Path

/-- The first spelling of a path stays. -/
def PathSet.add (s : PathSet) (p : Path) : PathSet :=
  if (SortedMap.get? s p.key).isSome then s else SortedMap.insert s p.key p

section

variable {m : Type → Type} [Monad m]

/-- Adds the regular files among the paths. -/
def addFiles (R : FileReader m) : List Path → PathSet → m PathSet
  | [], s => return s
  | p :: r, s => do
    let isFile ← R.isFile p
    addFiles R r (if isFile then s.add p else s)

def addMatches (R : FileReader m) : List String → PathSet → m (Except BadPattern PathSet)
  | [], s => return .ok s
  | text :: r, s =>
    match PathPattern.ofText text with
    | .error e => return .error ⟨text, e⟩
    | .ok g => do
      let paths ← g.expand R
      let s ← addFiles R paths s
      addMatches R r s

/-- The regular files that fit one of the patterns. -/
def matchingFiles (R : FileReader m) (patterns : List String) : m (Except BadPattern (List Path)) := do
  let found ← addMatches R patterns .empty
  return found.map SortedMap.values

end

end WorkflowCompiler.Glob
