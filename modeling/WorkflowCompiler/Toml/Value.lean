import WorkflowCompiler.Toml.Number

/-!
Values of TOML text. A table remembers how it came to be, since that decides whether more may be added to it.
-/

namespace WorkflowCompiler.Toml

/-- How a table came to be. -/
inductive Origin where
  /-- Written in braces, so that nothing can be added later. -/
  | inline
  /-- Has a header of its own. -/
  | declared
  /-- Only the headers of tables in it mention it. -/
  | implied
  /-- A dotted key mentions it. -/
  | dotted
  deriving DecidableEq, Repr

inductive Value where
  | text (s : String)
  | whole (i : Int)
  | fraction (shown : String)
  | flag (b : Bool)
  /-- A date, a time or both. -/
  | moment
  | array (items : List Value)
  | table (origin : Origin) (members : List (String × Value))
  /-- Tables that share a header, in order. -/
  | tables (items : List (List (String × Value)))
  deriving Inhabited

abbrev Members := List (String × Value)

/-- A member under a key that is not taken. -/
def Members.add (key : String) (v : Value) (ms : Members) : Option Members :=
  if (ms.lookup key).isSome then none else some (ms ++ [(key, v)])

/-- Changes the table to which a path leads from a table of the given origin; tables on the way are made when they
are missing. A dotted path passes only through tables that have no header of their own. -/
def Members.change (step : Origin) (act : Origin → Members → Option Members) :
    Origin → List String → Members → Option Members
  | origin, [], ms => act origin ms
  | _, k :: ks, ms =>
    match ms.lookup k with
    | none => do
      let inner ← change step act step ks []
      return ms ++ [(k, .table step inner)]
    | some (.table origin inner) =>
      if origin = .inline ∨ (step = .dotted ∧ origin = .declared) then none
      else do
        let inner ← change step act origin ks inner
        return ms.map fun e => if e.1 = k then (k, .table origin inner) else e
    | some (.tables items) =>
      match items.getLast? with
      | none => none
      | some last => do
        let last ← change step act .declared ks last
        return ms.map fun e => if e.1 = k then (k, .tables (items.dropLast ++ [last])) else e
    | some _ => none

/-- Adds a value under a dotted key. Its last part goes into the table itself, or into one made by dotted keys. -/
def Members.assign (path : List String) (key : String) (v : Value) (ms : Members) : Option Members :=
  ms.change .dotted
    (fun origin ms => if path.isEmpty ∨ origin = .dotted then ms.add key v else none) .declared path

/-- A key, an equals sign and a value. -/
def readPair (value : Scan Value) (cs : List Char) :
    Option ((List String × Value) × List Char) := do
  let (key, cs) ← readKey cs
  let cs ← skip '=' cs
  let (v, cs) ← value (dropBlanks cs)
  return ((key, v), cs)

/-- The members that dotted keys and their values make. -/
def collect (pairs : List (List String × Value)) : Option Members :=
  pairs.foldlM (fun ms p => (p.1.getLast?).bind fun key => ms.assign p.1.dropLast key p.2) []

/-- The rest of a table in braces, which is all on one line. -/
def readInline (value : Scan Value) (cs : List Char) : Option (Members × List Char) :=
  match dropBlanks cs with
  | '\x7d' :: r => some ([], r)
  | cs => do
    let pair (cs : List Char) : Option ((List String × Value) × List Char) :=
      (readPair value cs).map fun p => (p.1, dropBlanks p.2)
    let (pairs, cs) ← readSeparated pair ',' cs
    let cs ← skip '\x7d' cs
    let ms ← collect pairs
    return (ms, cs)

/-- The rest of an array, which may go over lines and end with a comma. -/
def readItems (value : Scan Value) (cs : List Char) : Option (List Value × List Char) :=
  match dropLines cs with
  | ']' :: r => some ([], r)
  | cs' =>
    match value cs' with
    | none => none
    | some (v, r) =>
      match dropLines r with
      | ']' :: r' => some ([v], r')
      | ',' :: r' =>
        if r'.length < cs.length then (readItems value r').map fun p => (v :: p.1, p.2) else none
      | _ => none
termination_by cs.length

def ofNumber : Number → Value
  | .whole i => .whole i
  | .fraction shown => .fraction shown

/-- A value that has no parts. -/
def readScalar (cs : List Char) : Option (Value × List Char) :=
  match cs with
  | '"' :: _ | '\'' :: _ => (readString cs).map fun p => (.text p.1, p.2)
  | 't' :: 'r' :: 'u' :: 'e' :: r => some (.flag true, r)
  | 'f' :: 'a' :: 'l' :: 's' :: 'e' :: r => some (.flag false, r)
  | cs =>
    match afterMoment cs with
    | some r => some (.moment, r)
    | none => (readNumber cs).map fun p => (ofNumber p.1, p.2)

/-- A value; `levels` values may be nested in each other. -/
def readValue (levels : Nat) (cs : List Char) : Option (Value × List Char) :=
  match cs with
  | '[' :: r =>
    match levels with
    | 0 => none
    | levels + 1 => (readItems (readValue levels) r).map fun p => (.array p.1, p.2)
  | '\x7b' :: r =>
    match levels with
    | 0 => none
    | levels + 1 => (readInline (readValue levels) r).map fun p => (.table .inline p.1, p.2)
  | cs => readScalar cs

end WorkflowCompiler.Toml
