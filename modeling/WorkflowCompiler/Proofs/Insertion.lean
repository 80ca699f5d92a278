import Mathlib.Data.Finset.Dedup
import Mathlib.Data.Finset.Card
import WorkflowCompiler.Proofs.BreadthFirst
import WorkflowCompiler.Proofs.Locality

/-!
What a catalog holds after any number of insertions, of which some are refused. The first executable of a name stays for
good: a later one of the same name is refused and changes nothing. So the table is the list of what was to be inserted,
without those that repeat a name, each under its own name, and a whole list makes a catalog exactly if none of its
members is refused.
-/

namespace WorkflowCompiler

namespace Catalog

variable {t : Table} {c : Catalog} {e : Executable} {es : List Executable} {err : CompileError}

namespace Table

/-- The table after a sequence of insertions into the empty one, whatever became of each of them. -/
def after (es : List Executable) : Table := es.foldl (fun t e => (t.insert e).2) .empty

theorem after_concat (es : List Executable) (e : Executable) :
    after (es ++ [e]) = ((after es).insert e).2 := by
  rw [after, List.foldl_append]
  rfl

theorem contains_eq_false : t.contains e.name = false ↔ e.name ∉ t.keys := by
  rw [← Bool.not_eq_true, OrderedMap.contains_iff]

theorem keyed_after (es : List Executable) : (after es).Keyed := by
  induction es using List.reverseRecOn with
  | nil => exact keyed_empty
  | append_singleton es e ih =>
    rw [after_concat]
    exact keyed_insert ih e

theorem keys_insert (t : Table) (e : Executable) :
    (t.insert e).2.keys = if e.name ∈ t.keys then t.keys else t.keys ++ [e.name] := by
  by_cases hmem : e.name ∈ t.keys
  · rw [insert_of_contains (OrderedMap.contains_iff.2 hmem), if_pos hmem]
  · rw [insert_of_not_contains (contains_eq_false.2 hmem)]
    exact OrderedMap.keys_insert t e.name e

/-- The keys are the names of all executables, those that were refused among them, in the order in which they first
came. -/
theorem keys_after (es : List Executable) : (after es).keys = (es.map Executable.name).eraseDups := by
  induction es using List.reverseRecOn with
  | nil => rfl
  | append_singleton es e ih =>
    rw [after_concat, keys_insert, ih, List.map_append, List.map_singleton, eraseDups_concat]
    simp only [List.mem_eraseDups]

theorem mem_keys_after {q : QualifiedName} : q ∈ (after es).keys ↔ q ∈ es.map Executable.name := by
  rw [keys_after, List.mem_eraseDups]

/-- One more executable answers for its name if no other one did before. -/
theorem get?_insert (t : Table) (e : Executable) (q : QualifiedName) :
    (t.insert e).2.get? q = (t.get? q).or ([e].find? fun d => d.name = q) := by
  cases hc : t.contains e.name with
  | true =>
    rw [insert_of_contains hc]
    by_cases hq : e.name = q
    · obtain ⟨d, hd⟩ := Option.isSome_iff_exists.1 hc
      rw [← hq, hd, Option.some_or]
    · rw [List.find?_cons_of_neg (by simpa using hq), List.find?_nil, Option.or_none]
  | false =>
    have hnone : t.get? e.name = none := Option.isNone_iff_eq_none.1 (Option.isSome_eq_false_iff.1 hc)
    rw [insert_of_not_contains hc]
    change (OrderedMap.insert t e.name e).get? q = _
    rw [OrderedMap.get?_insert]
    by_cases hq : q = e.name
    · rw [if_pos hq, hq, hnone, List.find?_cons_of_pos (by simp), Option.none_or]
    · rw [if_neg hq, List.find?_cons_of_neg (by simpa using fun h => hq h.symm), List.find?_nil,
        Option.or_none]

theorem get?_after (es : List Executable) (q : QualifiedName) :
    (after es).get? q = es.find? fun e => e.name = q := by
  induction es using List.reverseRecOn with
  | nil => rfl
  | append_singleton es e ih => rw [after_concat, get?_insert, ih, List.find?_append]

theorem size_after (es : List Executable) :
    (after es).size = (es.map Executable.name).toFinset.card := by
  have hlength : (after es).size = (es.map Executable.name).eraseDups.length := by
    rw [← keys_after, OrderedMap.keys, List.length_map, OrderedMap.size]
  have hsame : (es.map Executable.name).eraseDups.toFinset = (es.map Executable.name).toFinset := by
    ext q
    simp
  rw [hlength, ← hsame, List.toFinset_card_of_nodup (nodup_eraseDups _)]

/-- What a table holds of a sequence of executables: the first of each name under that name, in the order in which they
came. -/
structure Collects (t : Table) (es : List Executable) : Prop where
  keyed : t.Keyed
  first : ∀ q, t.get? q = es.find? fun e => e.name = q
  order : t.keys = (es.map Executable.name).eraseDups
  size : t.size = (es.map Executable.name).toFinset.card

theorem collects_after (es : List Executable) : (after es).Collects es where
  keyed := keyed_after es
  first := get?_after es
  order := keys_after es
  size := size_after es

end Table

theorem ofList_concat_eq_error : ofList (es ++ [e]) = .error err ↔
    ofList es = .error err ∨ ∃ c, ofList es = .ok c ∧ c.extend e = .error err := by
  have hconcat : ofList (es ++ [e]) = ofList es >>= fun c => c.extend e := by
    rw [ofList, List.foldlM_append]
    congr 1
    funext c
    exact bind_pure (c.extend e)
  rw [hconcat, bind_eq_error]

/-- The first executable in a list whose name came before. -/
structure Repeating (es front : List Executable) (e : Executable) : Prop where
  split : ∃ back, es = front ++ e :: back
  distinct : (front.map Executable.name).Nodup
  again : e.name ∈ front.map Executable.name

theorem ofList_eq_error : ofList es = .error err ↔
    ∃ front e, Repeating es front e ∧ err = .duplicateExecutable e.name.text := by
  constructor
  · intro h
    induction es using List.reverseRecOn with
    | nil => cases h
    | append_singleton es d ih =>
      rcases ofList_concat_eq_error.1 h with h | ⟨c, hc, hextend⟩
      · obtain ⟨front, e, ⟨⟨back, rfl⟩, hdistinct, hagain⟩, herr⟩ := ih h
        exact ⟨front, e, ⟨⟨back ++ [d], by simp⟩, hdistinct, hagain⟩, herr⟩
      · obtain ⟨hagain, herr⟩ := extend_eq_error.1 hextend
        have hes := ofList_eq_ok.1 hc
        exact ⟨es, d, ⟨⟨[], rfl⟩, hes ▸ c.distinct, hes ▸ hagain⟩, herr⟩
  · rintro ⟨front, e, ⟨⟨back, rfl⟩, hdistinct, hagain⟩, rfl⟩
    have hexecutables := executables_ofDistinct hdistinct
    have hfront : ofList front = .ok (ofDistinct front hdistinct) := ofList_eq_ok.2 hexecutables
    have hextend : extend (ofDistinct front hdistinct) e = .error (.duplicateExecutable e.name.text) :=
      extend_eq_error.2 ⟨by rwa [hexecutables], rfl⟩
    rw [ofList, List.foldlM_append]
    refine bind_eq_error.2 (.inr ⟨_, hfront, ?_⟩)
    exact bind_eq_error.2 (.inl hextend)

theorem exists_ofList_iff : (∃ c, ofList es = .ok c) ↔ (es.map Executable.name).Nodup := by
  simp only [ofList_eq_ok]
  constructor
  · rintro ⟨c, rfl⟩
    exact c.distinct
  · intro h
    exact ⟨ofDistinct es h, executables_ofDistinct h⟩

/-- Where no insertion is refused, giving up at a refusal makes no difference. -/
theorem table_of_foldlM {c' : Catalog} (h : es.foldlM extend c = .ok c') :
    c'.table = es.foldl (fun t e => (t.insert e).2) c.table := by
  induction es generalizing c with
  | nil => rw [← Except.ok.inj h, List.foldl_nil]
  | cons e r ih =>
    rw [List.foldlM_cons] at h
    obtain ⟨c₁, hextend, hrest⟩ := bind_eq_ok.1 h
    have hinsert := insert_eq_ok.2 (extend_eq_ok.1 hextend)
    have htable : (c.table.insert e).2 = c₁.table := congrArg (fun x => x.2.table) hinsert
    rw [List.foldl_cons, htable]
    exact ih hrest

theorem table_of_ofList (h : ofList es = .ok c) : c.table = .after es := table_of_foldlM h

/-- The catalogs are the tables that insertions leave. -/
theorem table_eq_after (c : Catalog) : c.table = .after c.executables := table_of_ofList (ofList_eq_ok.2 rfl)

/-- An insertion is refused exactly if the name came before, whether or not it was refused then, and a refusal changes
nothing. A list makes a catalog exactly if no name comes twice; else the first executable that repeats a name is
reported. -/
theorem insertions_exact (es : List Executable) :
    (Table.after es).Collects es ∧
    (∀ e, e.name ∈ es.map Executable.name →
      (Table.after es).insert e = (.error (.duplicateExecutable e.name.text), .after es)) ∧
    (∀ e, e.name ∉ es.map Executable.name →
      (Table.after es).insert e = (.ok (), .after (es ++ [e])) ∧
      (Table.after (es ++ [e])).entries = (Table.after es).entries ++ [(e.name, e)]) ∧
    ((∃ c, ofList es = .ok c) ↔ (es.map Executable.name).Nodup) ∧
    (∀ c, ofList es = .ok c → c.table = .after es) ∧
    ∀ err, ofList es = .error err ↔
      ∃ front e, Repeating es front e ∧ err = .duplicateExecutable e.name.text := by
  refine ⟨Table.collects_after es, ?_, ?_, exists_ofList_iff, fun _ => table_of_ofList,
    fun _ => ofList_eq_error⟩
  · intro e he
    exact Table.insert_of_contains (OrderedMap.contains_iff.2 (Table.mem_keys_after.2 he))
  · intro e he
    have hnew : e.name ∉ (Table.after es).keys := mt Table.mem_keys_after.1 he
    have hinsert := Table.insert_of_not_contains (Table.contains_eq_false.2 hnew)
    rw [Table.after_concat, hinsert]
    exact ⟨rfl, putEntry_new e hnew⟩

end Catalog

/-- An operation with the name of a flow of the relay. -/
def pingOperation : Operation := ⟨pingName, [], [], [⟨success, none⟩], .script "pass"⟩

/-- The flow came first, so the operation of the same name is refused whenever it comes. -/
theorem pingOperation_refused :
    Catalog.Table.Collects (.after [.flow pingFlow, .operation pingOperation, .flow pongFlow])
      [.flow pingFlow, .operation pingOperation, .flow pongFlow] ∧
    Catalog.Table.insert (.after [.flow pingFlow, .operation pingOperation, .flow pongFlow])
      (.operation pingOperation) = (.error (.duplicateExecutable "relay.ping"),
        .after [.flow pingFlow, .operation pingOperation, .flow pongFlow]) ∧
    Catalog.ofList [.flow pingFlow, .operation pingOperation, .flow pongFlow] =
      .error (.duplicateExecutable "relay.ping") := by
  obtain ⟨hcollects, hrefused, -, -, -, herror⟩ :=
    Catalog.insertions_exact [.flow pingFlow, .operation pingOperation, .flow pongFlow]
  have hagain : (Executable.operation pingOperation).name ∈
      [.flow pingFlow, .operation pingOperation, .flow pongFlow].map Executable.name := by decide
  have htext : (Executable.operation pingOperation).name.text = "relay.ping" := by decide
  refine ⟨hcollects, ?_, (herror _).2 ?_⟩
  · rw [hrefused _ hagain, htext]
  · exact ⟨[.flow pingFlow], .operation pingOperation, ⟨⟨[.flow pongFlow], rfl⟩, by decide, by decide⟩,
      by decide⟩

end WorkflowCompiler
