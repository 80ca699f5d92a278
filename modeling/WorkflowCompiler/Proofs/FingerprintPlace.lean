import WorkflowCompiler.Proofs.Verification

/-!
Where a document may record its fingerprint. Taking the fingerprint out moves the last member into its place, so the
rest is hashed as it is written only if at most one member follows the fingerprint. In any other document the members
are hashed in another order, and the fingerprint of the members as they stand is refused.
-/

namespace WorkflowCompiler

/-- The last element in front of the others. -/
def lastFirst {α : Type} (xs : List α) : List α := xs.getLast?.toList ++ xs.dropLast

theorem lastFirst_concat {α : Type} (xs : List α) (x : α) : lastFirst (xs ++ [x]) = x :: xs := by
  simp [lastFirst]

theorem lastFirst_perm {α : Type} (xs : List α) : (lastFirst xs).Perm xs := by
  rcases List.eq_nil_or_concat xs with rfl | ⟨front, last, rfl⟩
  · exact .refl _
  · rw [List.concat_eq_append, lastFirst_concat]
    exact (List.perm_append_singleton last front).symm

theorem lastFirst_of_length_le {α : Type} {xs : List α} (h : xs.length ≤ 1) : lastFirst xs = xs := by
  match xs, h with
  | [], _ => rfl
  | [_], _ => rfl

theorem length_le_of_lastFirst {α : Type} {xs : List α} (hxs : xs.Nodup) (h : lastFirst xs = xs) :
    xs.length ≤ 1 := by
  rcases List.eq_nil_or_concat xs with rfl | ⟨front, last, rfl⟩
  · exact Nat.zero_le 1
  · cases front with
    | nil => exact Nat.le_refl 1
    | cons x r =>
      -- The last element would also be the first one.
      rw [List.concat_eq_append, lastFirst_concat, List.cons_append, List.cons.injEq] at h
      rw [List.concat_eq_append, List.cons_append, List.nodup_cons, h.1] at hxs
      exact absurd (by simp) hxs.1

theorem swapRemove_append {α : Type} {key : String} {front : List (String × α)} (v : α)
    (back : List (String × α)) (h : key ∉ front.map Prod.fst) :
    swapRemove key (front ++ (key, v) :: back) = front ++ lastFirst back := by
  induction front with
  | nil =>
    rw [List.nil_append, List.nil_append, swapRemove, if_pos rfl, lastFirst]
    cases hlast : back.getLast? with
    | none => rw [List.getLast?_eq_none_iff.1 hlast]; rfl
    | some last => rfl
  | cons e r ih =>
    obtain ⟨he, hr⟩ := not_or.1 (mt List.mem_cons.2 h)
    rw [List.cons_append, List.cons_append, swapRemove, if_neg (Ne.symm he), ih hr]

namespace Json

variable {front back : List (String × Json)}

/-- A document that records a fingerprint between its other members. -/
def recording (front back : List (String × Json)) (fingerprint : String) : Json :=
  .obj (front ++ ("fingerprint", .str fingerprint) :: back)

theorem verify_recording (fingerprint : String) (h : "fingerprint" ∉ front.map Prod.fst) :
    (recording front back fingerprint).verify =
      if (obj (front ++ lastFirst back)).fingerprint = fingerprint then .ok fingerprint
      else .error (.mismatch fingerprint (obj (front ++ lastFirst back)).fingerprint) := by
  have hget : (front ++ ("fingerprint", str fingerprint) :: back).lookup "fingerprint" =
      some (str fingerprint) :=
    List.lookup_eq_some_iff.2 ⟨front, back, rfl, fun p hp => by
      simpa using fun hkey => h (List.mem_map.2 ⟨p, hp, hkey.symm⟩)⟩
  simp only [recording, verify, hget, swapRemove_append _ back h, Option.bind_some, str?]

/-- Members in two orders have two fingerprints. -/
theorem fingerprint_lastFirst_iff (hkeys : (back.map Prod.fst).Nodup)
    (hwhole : ∀ m ∈ front ++ back, m.2.Whole)
    (hhash : ¬ Blake3.Collide (obj (front ++ lastFirst back)).compact (obj (front ++ back)).compact) :
    (obj (front ++ lastFirst back)).fingerprint = (obj (front ++ back)).fingerprint ↔
      back.length ≤ 1 := by
  constructor
  · intro h
    have hmoved : (obj (front ++ lastFirst back)).Whole :=
      .obj fun m hm => hwhole m (((lastFirst_perm back).append_left front).mem_iff.1 hm)
    have hsame := compact_inj hmoved (.obj hwhole) (fingerprintText_inj hhash h)
    have hback : back.Nodup := List.Pairwise.of_map Prod.fst (fun _ _ => mt (congrArg Prod.fst)) hkeys
    exact length_le_of_lastFirst hback (List.append_cancel_left (obj.inj hsame))
  · intro h
    rw [lastFirst_of_length_le h]

/-- A document is checked with its last member in the place of the fingerprint. So it is checked as it is written if
at most one member follows the fingerprint; if more do, the fingerprint of the other members as they are written does
not pass, unless the hash takes two different texts to one value. -/
theorem verify_place_exact (front back : List (String × Json))
    (hkeys : (front.map Prod.fst ++ "fingerprint" :: back.map Prod.fst).Nodup) :
    (∀ fingerprint, (recording front back fingerprint).verify = .ok fingerprint ↔
      (obj (front ++ lastFirst back)).fingerprint = fingerprint) ∧
    (back.length ≤ 1 → ∀ fingerprint,
      (recording front back fingerprint).verify = .ok fingerprint ↔
        (obj (front ++ back)).fingerprint = fingerprint) ∧
    ((∀ m ∈ front ++ back, m.2.Whole) →
      ¬ Blake3.Collide (obj (front ++ lastFirst back)).compact (obj (front ++ back)).compact →
      1 < back.length →
        (recording front back (obj (front ++ back)).fingerprint).verify =
          .error (.mismatch (obj (front ++ back)).fingerprint
            (obj (front ++ lastFirst back)).fingerprint)) := by
  obtain ⟨-, hback, hnew⟩ := List.nodup_append.1 hkeys
  have hfront : "fingerprint" ∉ front.map Prod.fst := by
    intro h
    exact hnew _ h _ List.mem_cons_self rfl
  have hverify (fingerprint : String) : (recording front back fingerprint).verify = .ok fingerprint ↔
      (obj (front ++ lastFirst back)).fingerprint = fingerprint := by
    rw [verify_recording fingerprint hfront]
    split
    · rename_i h
      exact iff_of_true rfl h
    · rename_i h
      exact iff_of_false nofun h
  refine ⟨hverify, ?_, ?_⟩
  · intro hlength fingerprint
    rw [hverify, lastFirst_of_length_le hlength]
  · intro hwhole hhash hlength
    have hother := mt (fingerprint_lastFirst_iff (List.nodup_cons.1 hback).2 hwhole hhash).1
      (Nat.not_le.2 hlength)
    rw [verify_recording _ hfront, if_neg hother]

end Json

/-- The members of a document apart from its fingerprint. -/
def plainMembers : List (String × Json) := [("executionPlan", .null), ("dependencies", .obj [])]

theorem plainMembers_fingerprint :
    (Json.obj (lastFirst plainMembers)).fingerprint ≠ (Json.obj plainMembers).fingerprint := by
  decide +kernel

/-- With one member after it the fingerprint of the members as they are written passes, with two it does not. -/
theorem plainMembers_place :
    (Json.recording [("executionPlan", .null)] [("dependencies", .obj [])]
        (Json.obj plainMembers).fingerprint).verify = .ok (Json.obj plainMembers).fingerprint ∧
      (Json.recording [] plainMembers (Json.obj plainMembers).fingerprint).verify =
        .error (.mismatch (Json.obj plainMembers).fingerprint
          (Json.obj (lastFirst plainMembers)).fingerprint) := by
  constructor
  · obtain ⟨-, hwritten, -⟩ :=
      Json.verify_place_exact [("executionPlan", .null)] [("dependencies", .obj [])] (by decide)
    exact (hwritten (by decide) _).2 rfl
  · obtain ⟨-, -, hrefused⟩ := Json.verify_place_exact [] plainMembers (by decide)
    have hwhole : ∀ m ∈ plainMembers, m.2.Whole := by
      simp only [plainMembers, List.forall_mem_cons]
      exact ⟨.null, .obj (by simp), by simp⟩
    have hhash : ¬ Blake3.Collide (Json.obj (lastFirst plainMembers)).compact
        (Json.obj plainMembers).compact := by
      rintro ⟨-, hsame⟩
      apply plainMembers_fingerprint
      rw [Json.fingerprint, Json.fingerprint, fingerprintText, fingerprintText, Blake3.hexHash, hsame,
        Blake3.hexHash]
    exact hrefused hwhole hhash (by decide)

/-- The same members with the same fingerprint at another place are judged differently. -/
theorem plainMembers_moved :
    (Json.recording plainMembers [] (Json.obj plainMembers).fingerprint).verify =
        .ok (Json.obj plainMembers).fingerprint ∧
      (Json.recording [] plainMembers (Json.obj plainMembers).fingerprint).verify ≠
        .ok (Json.obj plainMembers).fingerprint := by
  constructor
  · rw [Json.verify_recording _ (by decide), lastFirst_of_length_le (by decide), List.append_nil, if_pos rfl]
  · rw [Json.verify_recording _ (by decide), List.nil_append, if_neg plainMembers_fingerprint]
    exact nofun

end WorkflowCompiler
