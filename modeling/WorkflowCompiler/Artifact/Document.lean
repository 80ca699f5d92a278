import WorkflowCompiler.Artifact
import WorkflowCompiler.Fingerprint
import WorkflowCompiler.Json.Reader
import WorkflowCompiler.Plan.Wire

/-!
The document that is written for an artifact, and the check of a document against the fingerprint that it
records. The fingerprint is taken of the document without it.
-/

namespace WorkflowCompiler

namespace Artifact

/-- What a scheduler reads: the root's plan and the others by their keys. -/
def toWire (a : Artifact) : Json :=
  .obj [("executionPlan", a.root.toWire),
    ("dependencies", .obj (a.dependencies.entries.map fun e => (e.1, e.2.toWire)))]

def fingerprint (a : Artifact) : String := a.toWire.fingerprint

/-- The wire form and, at its end, its fingerprint. -/
def document (a : Artifact) : Json :=
  .obj [("executionPlan", a.root.toWire),
    ("dependencies", .obj (a.dependencies.entries.map fun e => (e.1, e.2.toWire))),
    ("fingerprint", .str a.fingerprint)]

/-- The fingerprint of each plan, the root's first. -/
def planFingerprints (a : Artifact) : List (String × String) :=
  a.plans.map fun p => (p.id, p.toWire.fingerprint)

/-- The text that is stored for an artifact. -/
def fileText (a : Artifact) (indented : Bool) : String :=
  (if indented then a.document.pretty else a.document.compact) ++ "\n"

structure Parts where
  root : Option Plan := none
  dependencies : Option (SortedMap String Plan) := none

def finish (p : Parts) : Except DecodeError Artifact := do
  let root ← need "execution_plan" p.root
  let dependencies ← need "dependencies" p.dependencies
  return ⟨root, dependencies⟩

def shape : Shape Json Json.Decoded Parts Artifact where
  title := "struct CompilationArtifact"
  fields := [
    .of "execution_plan" Parts.root (fun p a => { p with root := a }) Plan.ofRecord false,
    .of "dependencies" Parts.dependencies (fun p a => { p with dependencies := a })
      (fun j => do
        let entries ← j.readMembers Plan.ofRecord
        return SortedMap.ofList entries) false]
  start := {}
  strict := false
  finish

/-- Reads an artifact from its stored form. -/
def ofRecord : Json → Json.Decoded Artifact := Json.readRecord .direct shape

def toRecord (a : Artifact) : Json :=
  .obj [("execution_plan", a.root.toRecord),
    ("dependencies", .obj (a.dependencies.entries.map fun e => (e.1, e.2.toRecord)))]

end Artifact

inductive VerifyError where
  | notAnObject
  | noFingerprint
  | mismatch (recorded computed : String)
  deriving DecidableEq, Repr

def VerifyError.message : VerifyError → String
  | .notAnObject => "artifact is not a JSON object"
  | .noFingerprint => "artifact has no fingerprint"
  | .mismatch recorded computed =>
    "fingerprint mismatch: recorded " ++ recorded ++ ", computed " ++ computed

/-- Takes an entry out of a list; the last entry moves to its place. -/
def swapRemove {α : Type} (key : String) : List (String × α) → List (String × α)
  | [] => []
  | e :: r =>
    if e.1 = key then
      match r.getLast? with
      | some last => last :: r.dropLast
      | none => []
    else e :: swapRemove key r

/-- Compares the recorded fingerprint with that of the rest of the document. -/
def Json.verify : Json → Except VerifyError String
  | .obj members =>
    match (members.lookup "fingerprint").bind Json.str? with
    | none => .error .noFingerprint
    | some recorded =>
      let computed := (Json.obj (swapRemove "fingerprint" members)).fingerprint
      if computed = recorded then .ok recorded else .error (.mismatch recorded computed)
  | _ => .error .notAnObject

end WorkflowCompiler
