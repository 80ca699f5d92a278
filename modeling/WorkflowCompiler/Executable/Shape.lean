import WorkflowCompiler.Decode.Shape
import WorkflowCompiler.Executable

/-!
How the declarations inside executables are read from any format.
-/

namespace WorkflowCompiler

variable {ν : Type} {m : Type → Type} [Monad m]

namespace Input

structure Parts where
  name : Option String := none
  fallback : Option (Option String) := none
  required : Option Bool := none
  isPrivate : Option Bool := none

def finish (p : Parts) : Except DecodeError Input := do
  let name ← need "name" p.name
  return ⟨name, p.fallback.getD none, p.required.getD true, p.isPrivate.getD false⟩

def shape (F : Format ν m) : Shape ν m Parts Input where
  title := "struct Input"
  fields := [
    .of "name" Parts.name (fun p a => { p with name := a }) F.text false,
    .of "default" Parts.fallback (fun p a => { p with fallback := some a }) (F.optional F.text) true,
    .of "required" Parts.required (fun p a => { p with required := a }) F.flag true,
    .of "private" Parts.isPrivate (fun p a => { p with isPrivate := a }) F.flag true]
  start := {}
  strict := false
  finish

def read (F : Format ν m) : ν → m Input := F.record (shape F)

end Input

namespace Argument

structure Parts where
  name : Option String := none
  value : Option (Option String) := none

def finish (p : Parts) : Except DecodeError Argument := do
  let name ← need "name" p.name
  return ⟨name, p.value.getD none⟩

def shape (F : Format ν m) : Shape ν m Parts Argument where
  title := "struct Argument"
  fields := [
    .of "name" Parts.name (fun p a => { p with name := a }) F.text false,
    .of "value" Parts.value (fun p a => { p with value := some a }) (F.optional F.text) true]
  start := {}
  strict := false
  finish

def read (F : Format ν m) : ν → m Argument := F.record (shape F)

end Argument

namespace Output

structure Parts where
  name : Option String := none
  value : Option String := none

def finish (p : Parts) : Except DecodeError Output := do
  let name ← need "name" p.name
  let value ← need "value" p.value
  return ⟨name, value⟩

def shape (F : Format ν m) : Shape ν m Parts Output where
  title := "struct Output"
  fields := [
    .of "name" Parts.name (fun p a => { p with name := a }) F.text false,
    .of "value" Parts.value (fun p a => { p with value := a }) F.text false]
  start := {}
  strict := false
  finish

def read (F : Format ν m) : ν → m Output := F.record (shape F)

end Output

namespace ResultDef

structure Parts where
  name : Option String := none
  condition : Option (Option String) := none

def finish (p : Parts) : Except DecodeError ResultDef := do
  let name ← need "name" p.name
  return ⟨name, p.condition.getD none⟩

def shape (F : Format ν m) : Shape ν m Parts ResultDef where
  title := "struct ResultDef"
  fields := [
    .of "name" Parts.name (fun p a => { p with name := a }) F.text false,
    .of "condition" Parts.condition (fun p a => { p with condition := some a })
      (F.optional F.text) true]
  start := {}
  strict := false
  finish

def read (F : Format ν m) : ν → m ResultDef := F.record (shape F)

end ResultDef

namespace Loop

structure Parts where
  item : Option String := none
  expression : Option String := none
  breakOn : Option (List String) := none

/-- Without a declaration a failure ends the loop. -/
def finish (p : Parts) : Except DecodeError Loop := do
  let item ← need "for" p.item
  let expression ← need "in" p.expression
  return ⟨item, expression, p.breakOn.getD [failure]⟩

def shape (F : Format ν m) : Shape ν m Parts Loop where
  title := "struct LoopStatement"
  fields := [
    .of "for" Parts.item (fun p a => { p with item := a }) F.text false,
    .of "in" Parts.expression (fun p a => { p with expression := a }) F.text false,
    .of "break" Parts.breakOn (fun p a => { p with breakOn := a }) (F.list F.text) true]
  start := {}
  strict := false
  finish

def read (F : Format ν m) : ν → m Loop := F.record (shape F)

end Loop

namespace ParallelLoop

structure Parts where
  item : Option String := none
  expression : Option String := none

def finish (p : Parts) : Except DecodeError ParallelLoop := do
  let item ← need "for" p.item
  let expression ← need "in" p.expression
  return ⟨item, expression⟩

def shape (F : Format ν m) : Shape ν m Parts ParallelLoop where
  title := "struct ParallelLoopStatement"
  fields := [
    .of "for" Parts.item (fun p a => { p with item := a }) F.text false,
    .of "in" Parts.expression (fun p a => { p with expression := a }) F.text false]
  start := {}
  strict := false
  finish

def read (F : Format ν m) : ν → m ParallelLoop := F.record (shape F)

end ParallelLoop

namespace Action

/-- Which of the listed fields a key names: by its name, or by its position. Some keys name no field at all and
some values are no keys. -/
inductive KeyUse where
  | field (index : Nat)
  | unknown
  | bad

def keyUse (fields : List String) : Content → KeyUse
  | .text s =>
    match fields.findIdx? (· == s) with
    | some i => .field i
    | none => .unknown
  | .natural n => if n < fields.length then .field n else .unknown
  | _ => .bad

/-- The texts of the listed fields; each must be there once, and any other field is passed over. -/
def gather (fields : List String) : List (Content × Content) → List (Option String) →
    Option (List (Option String))
  | [], got => some got
  | (k, v) :: r, got =>
    match keyUse fields k with
    | .unknown => gather fields r got
    | .bad => none
    | .field i =>
      match v, got[i]? with
      | .text s, some none => gather fields r (got.set i (some s))
      | _, _ => none

/-- A script if the script field is there, else a class and a method. -/
def ofContent : Content → Option Action
  | .map entries =>
    match gather ["script"] entries [none] with
    | some [some text] => some (.script text)
    | _ =>
      match gather ["class_name", "method_name"] entries [none, none] with
      | some [some className, some methodName] => some (.native className methodName)
      | _ => none
  | _ => none

def read (F : Format ν m) (v : ν) : m Action := do
  let c ← F.content v
  match ofContent c with
  | some a => pure a
  | none => F.fail (.noAlternative "Action")

end Action

end WorkflowCompiler
