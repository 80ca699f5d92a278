/-!
Cutting a list of characters at a separator: at every occurrence, at the first one and at the
last one. No character is lost: the parts and the separators between them are the list.
-/

namespace WorkflowCompiler.Text

/-- The parts between the occurrences of `sep`; `n` occurrences give `n + 1` parts. -/
def split (sep : Char) : List Char → List (List Char)
  | [] => [[]]
  | c :: r => if c = sep then [] :: split sep r else (split sep r).modifyHead (c :: ·)

@[simp] theorem split_nil (sep : Char) : split sep [] = [[]] := rfl

theorem split_ne_nil (sep : Char) (cs : List Char) : split sep cs ≠ [] := by
  induction cs with
  | nil => simp
  | cons c r ih =>
    simp only [split]
    split
    · simp
    · cases h : split sep r with
      | nil => exact absurd h ih
      | cons p ps => simp

/-- What stands before and after the first occurrence of `sep`. -/
def cutFirst (sep : Char) : List Char → Option (List Char × List Char)
  | [] => none
  | c :: r => if c = sep then some ([], r) else (cutFirst sep r).map fun p => (c :: p.1, p.2)

/-- What stands before and after the last occurrence of `sep`. -/
def cutLast (sep : Char) : List Char → Option (List Char × List Char)
  | [] => none
  | c :: r =>
    match cutLast sep r with
    | some (before, after) => some (c :: before, after)
    | none => if c = sep then some ([], r) else none

theorem eq_of_cutLast {sep : Char} {cs before after : List Char}
    (h : cutLast sep cs = some (before, after)) : cs = before ++ sep :: after := by
  induction cs generalizing before after with
  | nil => simp [cutLast] at h
  | cons c r ih =>
    simp only [cutLast] at h
    split at h
    · rename_i b a hr
      simp only [Option.some.injEq, Prod.mk.injEq] at h
      obtain ⟨rfl, rfl⟩ := h
      simpa using ih hr
    · split at h <;> simp_all

end WorkflowCompiler.Text
