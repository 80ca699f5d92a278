import WorkflowCompiler.CompileError
import WorkflowCompiler.Executable
import WorkflowCompiler.OrderedMap

/-!
The executables among which references are looked up. They are kept by name, in the order in which they came, and an
executable whose name is taken is refused.
-/

namespace WorkflowCompiler

namespace Catalog

abbrev Table := OrderedMap QualifiedName Executable

namespace Table

/-- Enters an executable under its name. Beside the result stands the table as it is from then on. -/
def insert (t : Table) (e : Executable) : Except CompileError Unit × Table :=
  if t.contains e.name then (.error (.duplicateExecutable e.name.text), t)
  else (.ok (), OrderedMap.insert t e.name e)

/-- Every executable stands under its own name. -/
def Keyed (t : Table) : Prop := ∀ entry ∈ t.entries, entry.1 = entry.2.name

instance (t : Table) : Decidable t.Keyed := inferInstanceAs (Decidable (∀ entry ∈ t.entries, _))

theorem keyed_empty : Keyed .empty := by
  intro entry h
  cases h

theorem insert_of_contains {t : Table} {e : Executable} (h : t.contains e.name = true) :
    t.insert e = (.error (.duplicateExecutable e.name.text), t) := by
  rw [insert, if_pos h]

theorem insert_of_not_contains {t : Table} {e : Executable} (h : t.contains e.name = false) :
    t.insert e = (.ok (), OrderedMap.insert t e.name e) := by
  rw [insert, h]
  rfl

theorem keyed_insert {t : Table} (h : t.Keyed) (e : Executable) : (t.insert e).2.Keyed := by
  cases hc : t.contains e.name with
  | true =>
    rw [insert_of_contains hc]
    exact h
  | false =>
    rw [insert_of_not_contains hc]
    intro entry hentry
    rcases mem_putEntry hentry with rfl | hold
    · rfl
    · exact h entry hold

end Table

end Catalog

/-- A table as insertions leave it: the keys are the names. -/
structure Catalog where
  table : Catalog.Table
  keyed : table.Keyed

namespace Catalog

def empty : Catalog := ⟨.empty, Table.keyed_empty⟩

/-- The executables in the order in which they came. -/
def executables (c : Catalog) : List Executable := c.table.entries.map Prod.snd

def get? (c : Catalog) (name : QualifiedName) : Option Executable := c.table.get? name

def size (c : Catalog) : Nat := c.table.size

def isEmpty (c : Catalog) : Bool := c.table.entries.isEmpty

def insert (c : Catalog) (e : Executable) : Except CompileError Unit × Catalog :=
  ((c.table.insert e).1, ⟨(c.table.insert e).2, Table.keyed_insert c.keyed e⟩)

/-- The catalog with one more executable, for a caller that gives up when it is refused. -/
def extend (c : Catalog) (e : Executable) : Except CompileError Catalog :=
  match c.insert e with
  | (.error err, _) => .error err
  | (.ok (), c) => .ok c

def ofList (es : List Executable) : Except CompileError Catalog := es.foldlM extend empty

theorem entry_of_get? {c : Catalog} {q : QualifiedName} {e : Executable} (h : c.get? q = some e) :
    (q, e) ∈ c.table.entries := by
  obtain ⟨front, back, hentries, -⟩ := List.lookup_eq_some_iff.1 h
  rw [hentries]
  exact List.mem_append_right front List.mem_cons_self

theorem name_of_get? {c : Catalog} {q : QualifiedName} {e : Executable} (h : c.get? q = some e) :
    e.name = q :=
  (c.keyed (q, e) (entry_of_get? h)).symm

theorem mem_of_get? {c : Catalog} {q : QualifiedName} {e : Executable} (h : c.get? q = some e) :
    e ∈ c.executables :=
  List.mem_map_of_mem (entry_of_get? h)

end Catalog

end WorkflowCompiler
