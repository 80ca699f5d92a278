import WorkflowCompiler.Proofs.Wire

/-!
What a verified document says. The fingerprint is the hash of the rest of the document, written in hexadecimal digits,
so without a collision of the hash the rest is the wire form of the artifact. Taking the fingerprint out moves the
last member into its place, which loses the order of the members and nothing else.
-/

namespace WorkflowCompiler

namespace Blake3

/-- Two different texts with the same hash. -/
def Collide (t u : String) : Prop := t ≠ u ∧ hash t.toUTF8.toList = hash u.toUTF8.toList

/-- Pieces of one length, one after the other, determine the elements that they are pieces of. -/
theorem flatMap_inj {α β : Type} {f : α → List β} {n : Nat} (hlength : ∀ x, (f x).length = n)
    (hf : ∀ x y, f x = f y → x = y) {xs ys : List α} (h : xs.length = ys.length)
    (heq : xs.flatMap f = ys.flatMap f) : xs = ys := by
  induction xs generalizing ys with
  | nil => exact (List.length_eq_zero_iff.1 h.symm).symm
  | cons x xs ih =>
    cases ys with
    | nil => simp at h
    | cons y ys =>
      rw [List.flatMap_cons, List.flatMap_cons] at heq
      obtain ⟨hxy, hrest⟩ := List.append_inj heq ((hlength x).trans (hlength y).symm)
      rw [hf x y hxy, ih (by simpa using h) hrest]

theorem digitChar_inj {m n : Nat} (hm : m < 16) (hn : n < 16)
    (h : Nat.digitChar m = Nat.digitChar n) : m = n := by
  have hall : ∀ m < 16, ∀ n < 16, Nat.digitChar m = Nat.digitChar n → m = n := by decide
  exact hall m hm n hn h

theorem hexByte_inj (b c : UInt8) (h : hexByte b = hexByte c) : b = c := by
  simp only [hexByte, List.cons.injEq, and_true] at h
  have hb := b.toNat_lt
  have hc := c.toNat_lt
  have hhigh := digitChar_inj (by omega) (by omega) h.1
  have hlow := digitChar_inj (by omega) (by omega) h.2
  apply UInt8.toNat_inj.1
  omega

theorem wordBytes_inj (v w : Word) (h : wordBytes v = wordBytes w) : v = w := by
  simp only [wordBytes, List.cons.injEq, and_true, ← UInt8.toNat_inj, UInt32.toNat_toUInt8,
    UInt32.toNat_shiftRight, Nat.shiftRight_eq_div_pow] at h
  have hv := v.toNat_lt
  have hw := w.toNat_lt
  apply UInt32.toNat_inj.1
  simp at h
  omega

theorem hexWord_inj (v w : Word)
    (h : (wordBytes v).flatMap hexByte = (wordBytes w).flatMap hexByte) : v = w :=
  wordBytes_inj v w (flatMap_inj (n := 2) (fun _ => rfl) hexByte_inj rfl h)

theorem hexChain_inj {v w : Chain} (h : (v.words.flatMap fun x => (wordBytes x).flatMap hexByte) =
    w.words.flatMap fun x => (wordBytes x).flatMap hexByte) : v = w := by
  have hwords : v.words = w.words := flatMap_inj (n := 8) (fun _ => rfl) hexWord_inj rfl h
  obtain ⟨a, b, c, d, e, f, g, k⟩ := v
  obtain ⟨a', b', c', d', e', f', g', k'⟩ := w
  simpa [Chain.words] using hwords

theorem hash_of_hexHash {t u : String} (h : hexHash t = hexHash u) :
    hash t.toUTF8.toList = hash u.toUTF8.toList := by
  unfold hexHash at h
  exact hexChain_inj (String.ofList_injective h)

end Blake3

theorem fingerprintText_inj {t u : String} (hhash : ¬ Blake3.Collide t u)
    (h : fingerprintText t = fingerprintText u) : t = u := by
  have hhex : Blake3.hexHash t = Blake3.hexHash u := by
    have hl := congrArg String.toList h
    simp only [fingerprintText, String.toList_append] at hl
    exact String.toList_inj.1 (List.append_cancel_left hl)
  exact Decidable.byContradiction fun hne => hhash ⟨hne, Blake3.hash_of_hexHash hhex⟩

theorem swapRemove_perm {α : Type} {key : String} {v : α} {es : List (String × α)}
    (h : es.lookup key = some v) : es.Perm ((key, v) :: swapRemove key es) := by
  induction es with
  | nil => cases h
  | cons e r ih =>
    rw [lookup_cons_if] at h
    rw [swapRemove]
    by_cases he : e.1 = key
    · rw [if_pos he.symm, Option.some.injEq] at h
      rw [if_pos he]
      have hentry : e = (key, v) := Prod.ext he h
      rw [hentry]
      refine .cons _ ?_
      cases hlast : r.getLast? with
      | none => simpa using hlast
      | some last =>
        obtain ⟨front, rfl⟩ := List.getLast?_eq_some_iff.1 hlast
        rw [List.dropLast_concat]
        exact List.perm_append_singleton last front
    · rw [if_neg fun hk => he hk.symm] at h
      rw [if_neg he]
      exact ((ih h).cons e).trans (.swap _ _ _)

namespace Json

/-- A document without its fingerprint. -/
def body : Json → Json
  | .obj members => .obj (swapRemove "fingerprint" members)
  | j => j

/-- A document is verified exactly when it records the fingerprint of its body. -/
theorem verify_eq_ok {d : Json} {fingerprint : String} :
    d.verify = .ok fingerprint ↔
      d.get? "fingerprint" = some (.str fingerprint) ∧ d.body.fingerprint = fingerprint := by
  cases d with
  | obj members =>
    simp only [verify, get?, body]
    cases hget : members.lookup "fingerprint" with
    | none => simp
    | some j =>
      cases j with
      | str recorded =>
        simp only [Option.bind_some, str?, Option.some.injEq, str.injEq]
        split
        · rename_i hsame
          constructor
          · intro h
            obtain rfl := Except.ok.inj h
            exact ⟨rfl, hsame⟩
          · rintro ⟨rfl, -⟩
            rfl
        · rename_i hother
          constructor
          · intro h
            cases h
          · rintro ⟨rfl, hsame⟩
            exact absurd hsame hother
      | _ => simp [str?]
  | _ => simp [verify, get?]

end Json

theorem lookup_perm {α : Type} {es ds : List (String × α)} (hes : (es.map Prod.fst).Nodup)
    (h : es.Perm ds) (key : String) : es.lookup key = ds.lookup key := by
  have hds : (ds.map Prod.fst).Nodup := (h.map Prod.fst).nodup_iff.1 hes
  ext v
  rw [lookup_iff_mem hes, lookup_iff_mem hds, h.mem_iff]

/-- Whatever document records the fingerprint of an artifact and passes the check is that of the artifact up to
the order of its three members, unless the hash takes two different texts to one value. -/
theorem Artifact.document_of_verify {a : Artifact} {d : Json} (hd : d.Whole)
    (h : d.verify = .ok a.fingerprint)
    (hhash : ¬ Blake3.Collide d.body.compact a.toWire.compact) :
    ∃ members, d = .obj members ∧
      (members.map Prod.fst).Perm ["executionPlan", "dependencies", "fingerprint"] ∧
      ∀ key, d.get? key = a.document.get? key := by
  obtain ⟨hget, hfingerprint⟩ := Json.verify_eq_ok.1 h
  have htext : d.body.compact = a.toWire.compact := fingerprintText_inj hhash hfingerprint
  cases d with
  | obj members =>
    -- In some order, the members are the recorded fingerprint and those of the body.
    have hperm := swapRemove_perm hget
    have hbody : (Json.obj members).body.Whole := by
      refine .obj fun m hm => Json.whole_obj.1 hd m ?_
      exact hperm.mem_iff.2 (List.mem_cons_of_mem _ hm)
    have hwire := Json.compact_inj hbody a.whole_toWire htext
    rw [Json.obj.inj hwire] at hperm
    have hmembers : members.Perm [("executionPlan", a.root.toWire),
        ("dependencies", .obj (a.dependencies.entries.map fun e => (e.1, e.2.toWire))),
        ("fingerprint", .str a.fingerprint)] :=
      hperm.trans (List.perm_append_singleton _ _).symm
    have hkeys := hmembers.map Prod.fst
    have hnodup : (members.map Prod.fst).Nodup := hkeys.nodup_iff.2 (by simp)
    exact ⟨members, rfl, hkeys, lookup_perm hnodup hmembers⟩
  | _ => cases hget

def greetArtifact : Artifact := ⟨(greetOperation (some "\"you\"\n")).plan, .empty⟩

/-- The members in the opposite order. -/
def greetReversed : Json :=
  .obj [("fingerprint", .str greetArtifact.fingerprint), ("dependencies", .obj []),
    ("executionPlan", greetArtifact.root.toWire)]

theorem greetReversed_verify : greetReversed.verify = .ok greetArtifact.fingerprint ∧
    ∀ key, greetReversed.get? key = greetArtifact.document.get? key := by
  have hverify : greetReversed.verify = .ok greetArtifact.fingerprint :=
    Json.verify_eq_ok.2 ⟨rfl, rfl⟩
  have hwhole : greetReversed.Whole := by
    have hwire := Json.whole_obj.1 greetArtifact.whole_toWire
    rw [List.forall_mem_cons] at hwire
    rw [greetReversed, Json.whole_obj]
    simp only [List.forall_mem_cons]
    exact ⟨.str _, .obj (by simp), hwire.1, by simp⟩
  have hhash : ¬ Blake3.Collide greetReversed.body.compact greetArtifact.toWire.compact :=
    fun h => h.1 rfl
  obtain ⟨_, -, -, hget⟩ := Artifact.document_of_verify hwhole hverify hhash
  exact ⟨hverify, hget⟩

end WorkflowCompiler
