import WorkflowCompiler.FileAccess
import WorkflowCompiler.Glob.Pattern

/-!
The paths that a pattern stands for. A path is spelled after the pattern: the parts of the pattern without wildcards
stay as they are written, dots included, and the others become the names that were found.
-/

namespace WorkflowCompiler.Glob

/-- A pattern of paths: where it starts, and one pattern for each name. -/
structure PathPattern where
  start : Path
  names : List Pattern
  /-- Whether only directories are meant, as after a slash at the end. -/
  onlyDirectories : Bool

/-- Several patterns of any depth in a row are one. -/
def mergeDepths : List Pattern → List Pattern
  | p :: q :: r =>
    if p.isAnyDepth && q.isAnyDepth then mergeDepths (q :: r) else p :: mergeDepths (q :: r)
  | ps => ps

/-- The parts between slashes; a slash at the end does not begin another one. -/
def cutParts (cs : List Char) : List (List Char) :=
  let parts := Text.split '/' cs
  if parts.getLast? = some [] then parts.dropLast else parts

/-- The pattern has to be well-formed as a whole, and then each part of it. -/
def PathPattern.ofText (text : String) : Except PatternError PathPattern := do
  let _ ← Pattern.ofText text
  let path : Path := ⟨text⟩
  let body := if path.isAbsolute then path.chars.drop 1 else path.chars
  let names ← (cutParts body).mapM fun part => Pattern.ofText (String.ofList part)
  return {
    start := ⟨if path.isAbsolute then "/" else "."⟩
    names := if body.isEmpty then [[]] else mergeDepths names
    onlyDirectories := path.endsWithSlash }

/-- A path one name further. The dot for the current directory is left out. -/
def extend (p : Path) (name : String) : Path := if p.isHere then ⟨name⟩ else p.join ⟨name⟩

section

variable {m : Type → Type} [Monad m]

/-- What a path that fits all of the pattern adds to the result. -/
def accept (onlyDirectories : Bool) (p : Path) (kind : Option FileKind) : List Path :=
  if onlyDirectories && kind != some .directory then [] else [p]

/-- What an entry adds when its own name is the next one to fit. -/
def visit (onlyDirectories : Bool) (go : Path → m (List Path)) (isLast : Bool) (pattern : Pattern)
    (q : Path) (e : List String × FileKind) : m (List Path) :=
  match e.1.getLast? with
  | none => return []
  | some name =>
    if !pattern.fits name.toList then return []
    else if isLast then return accept onlyDirectories q (some e.2)
    else go q

mutual

/-- The paths that the patterns of names stand for from a path on. -/
def search (R : FileReader m) (onlyDirectories : Bool) : List Pattern → Path → m (List Path)
  | [], p => do
    let kind ← R.kind? p
    return accept onlyDirectories p kind
  | pattern :: rest, p => do
    let isDirectory ← R.isDirectory p
    match pattern.literal? with
    | some name =>
      let next := extend p name
      let there ← if name = "." ∨ name = ".." then pure isDirectory else R.exists? next
      if there then search R onlyDirectories rest next else return []
    | none =>
      if !isDirectory then return []
      let found ← R.below p
      if pattern.isAnyDepth then searchDeep R onlyDirectories rest p found
      else
        let dots := if pattern.startsWithDot then ["..", "."] else []
        let special ← (dots.filter fun s => pattern.fits s.toList).mapM fun s =>
          search R onlyDirectories rest (p.join ⟨s⟩)
        let parts ← (found.filter fun e => e.1.length = 1).mapM fun e =>
          visit onlyDirectories (fun q => search R onlyDirectories rest q) rest.isEmpty pattern
            (e.1.foldl extend p) e
        return special.flatten ++ parts.flatten

/-- What the patterns stand for at any depth below a path, by all that was found there. -/
def searchDeep (R : FileReader m) (onlyDirectories : Bool) :
    List Pattern → Path → List (List String × FileKind) → m (List Path)
  | [], p, found => return (found.filter fun e => e.2 = .directory).map fun e => e.1.foldl extend p
  | next :: rest, p, found => do
    let parts ← found.mapM fun e =>
      visit onlyDirectories (fun q => search R onlyDirectories rest q) rest.isEmpty next
        (e.1.foldl extend p) e
    return parts.flatten

end

def PathPattern.expand (R : FileReader m) (g : PathPattern) : m (List Path) :=
  search R g.onlyDirectories g.names g.start

end

end WorkflowCompiler.Glob
