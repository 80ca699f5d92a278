import WorkflowCompiler.Project.ArtifactFile
import WorkflowCompiler.Proofs.FileSystem
import WorkflowCompiler.Proofs.Verification

/-!
Files of artifacts. The text that is written is read as the document that it was written for, in both layouts, and the
document passes the check against its fingerprint.
-/

namespace WorkflowCompiler

/-- Ids are stored in sixty-four bits, one of them for the sign. -/
def IsStored (id : Int) : Prop := -(Nat.pow 2 63 : Nat) ≤ id ∧ id < (Nat.pow 2 63 : Nat)

instance (id : Int) : Decidable (IsStored id) := inferInstanceAs (Decidable (_ ∧ _))

theorem IsStored.isWord {id : Int} (h : IsStored id) : Json.IsWord id := by
  have h63 : Nat.pow 2 63 = 9223372036854775808 := rfl
  have h64 : Nat.pow 2 64 = 18446744073709551616 := rfl
  simp only [IsStored, Json.IsWord, h63, h64] at h ⊢
  omega

namespace Artifact

variable {a : Artifact} {indented : Bool}

/-- All ids of the artifact can be stored. -/
def Storable (a : Artifact) : Prop := ∀ id ∈ a.ids, IsStored id

instance (a : Artifact) : Decidable a.Storable :=
  inferInstanceAs (Decidable (∀ id ∈ a.ids, IsStored id))

theorem parse_fileText (ha : a.Storable) : Json.parse (a.fileText indented) = some a.document := by
  have htidy : Json.Tidy Json.IsWord (119 + 8) a.document :=
    tidy_document (IsStored.isWord (by decide)) fun id hid => (ha id hid).isWord
  have hread {layout : Json.Layout} (hlayout : layout.Blank) :
      Json.parse (String.ofList (Json.render layout 0 a.document) ++ "\n") = some a.document := by
    have hline : "\n" = String.ofList ['\n'] := rfl
    rw [hline, ← String.ofList_append]
    exact Json.parse_render hlayout htidy 0 (by simp [Json.isBlank])
  cases indented with
  | false => exact hread Json.Layout.blank_compact
  | true => exact hread Json.Layout.blank_indented

/-- The fingerprint is the last member, so that nothing moves when it is taken out. -/
theorem verify_document (a : Artifact) : a.document.verify = .ok a.fingerprint :=
  Json.verify_eq_ok.2 ⟨rfl, rfl⟩

section

variable {F : FileSystem} {s s' : F.State} {path : Path}

/-- To make room is to make directories. -/
theorem addsDirectories_of_makeRoom {r : Except SaveError Unit}
    (h : (makeRoom F.store path).run s = (r, s')) : (F.tree s).AddsDirectories (F.tree s') := by
  unfold makeRoom at h
  split at h
  · rw [FileSystem.tree_of_pure h]
    exact .refl _
  · split at h
    · rw [FileSystem.tree_of_pure h]
      exact .refl _
    · obtain ⟨made, s₁, hmade, h⟩ := run_bind_eq.1 h
      rw [FileSystem.tree_of_pure h]
      exact FileSystem.addsDirectories_of_makeFirst hmade

/-- How far a save can come: to directories, to the draft or a part of it, or to the end. Only the last step touches
the place of the file. -/
theorem save_cases {r : Except SaveError String} (h : (a.save F.store path indented).run s = (r, s')) :
    ∃ t₁, (F.tree s).AddsDirectories t₁ ∧ ((∃ e, r = .error e ∧ F.tree s' = t₁) ∨
      ∃ written t₂, t₁.Writes (draftPath path) (a.fileText indented) written t₂ ∧
        ((∃ e, r = .error e ∧ F.tree s' = t₂) ∨ (r = .ok a.fingerprint ∧ written = .ok () ∧
          t₂.rename (draftPath path) path = .ok (F.tree s')))) := by
  obtain ⟨made, s₁, hmade, h⟩ := run_bind_eq.1 h
  refine ⟨F.tree s₁, addsDirectories_of_makeRoom hmade, ?_⟩
  cases made with
  | error e =>
    obtain ⟨rfl, rfl⟩ := Prod.mk.inj h
    exact .inl ⟨e, rfl, rfl⟩
  | ok _ =>
    obtain ⟨written, s₂, hwrite, h⟩ := run_bind_eq.1 h
    refine .inr ⟨written, F.tree s₂, F.write hwrite, ?_⟩
    cases written with
    | error e =>
      obtain ⟨rfl, rfl⟩ := Prod.mk.inj h
      exact .inl ⟨_, rfl, rfl⟩
    | ok _ =>
      obtain ⟨moved, s₃, hmove, h⟩ := run_bind_eq.1 h
      cases moved with
      | error e =>
        obtain ⟨rfl, rfl⟩ := Prod.mk.inj h
        exact .inl ⟨_, rfl, (F.rename hmove).unchanged⟩
      | ok _ =>
        obtain ⟨rfl, rfl⟩ := Prod.mk.inj h
        exact .inr ⟨rfl, rfl, (F.rename hmove).eq_ok⟩

/-- A file is saved by writing the text beside it and moving that there. -/
theorem save_eq_ok {fingerprint : String}
    (h : (a.save F.store path indented).run s = (.ok fingerprint, s')) :
    fingerprint = a.fingerprint ∧ ∃ t₁ t₂ : FileTree, (F.tree s).AddsDirectories t₁ ∧
      t₁.write (draftPath path) (a.fileText indented) = .ok t₂ ∧
      t₂.rename (draftPath path) path = .ok (F.tree s') := by
  obtain ⟨t₁, hroom, ⟨_, herror, -⟩ | ⟨_, t₂, hwrite, ⟨_, herror, -⟩ | ⟨hok, rfl, hmove⟩⟩⟩ := save_cases h
  · cases herror
  · cases herror
  · exact ⟨Except.ok.inj hok, t₁, t₂, hroom, hwrite.eq_ok, hmove⟩

/-- The text stands where it was saved, whatever was there before. -/
theorem file_of_save {fingerprint : String}
    (h : (a.save F.store path indented).run s = (.ok fingerprint, s')) :
    (F.tree s').kind? path = some .file ∧ (F.tree s').contents path = .ok (a.fileText indented) := by
  obtain ⟨-, t₁, t₂, -, hwrite, hrename⟩ := save_eq_ok h
  obtain ⟨l, name, hplace, hfile⟩ := FileTree.place_of_write_rename hwrite hrename
  exact ⟨hplace.kind? hfile, hplace.contents hfile⟩

end

theorem load_of_file {path : Path} {t : FileTree} (ha : a.Storable)
    (hkind : t.kind? path = some .file) (hcontents : t.contents path = .ok (a.fileText indented)) :
    Json.load t.reader path = .ok (some a.document) := by
  have hkind' : t.reader.kind? path = some .file := hkind
  have hcontents' : t.reader.contents path = .ok (a.fileText indented) := hcontents
  simp [Json.load, FileReader.exists?, hkind', hcontents', parse_fileText ha, bind, pure]

/-- What is saved is loaded again and passes the check, in both layouts. -/
theorem load_save (ha : a.Storable) (indented : Bool) :
    Json.parse (a.fileText indented) = some a.document ∧
      a.document.verify = .ok a.fingerprint ∧
      ∀ (path : Path) (t t' : FileTree) (fingerprint : String),
        (a.save FileTree.store path indented).run t = (.ok fingerprint, t') →
          fingerprint = a.fingerprint ∧ t'.contents path = .ok (a.fileText indented) ∧
            Json.load t'.reader path = .ok (some a.document) := by
  refine ⟨parse_fileText ha, verify_document a, ?_⟩
  intro path t t' fingerprint h
  have h : (a.save FileSystem.ofTree.store path indented).run t = (.ok fingerprint, t') := h
  obtain ⟨hkind, hcontents⟩ := file_of_save h
  exact ⟨(save_eq_ok h).1, hcontents, load_of_file ha hkind hcontents⟩

end Artifact

/-- A file in a directory that is still to be made. -/
def greetPath : Path := ⟨"out/greet.plan.json"⟩

theorem greetArtifact_load :
    greetArtifact.Storable ∧
      ∃ t, (greetArtifact.save FileTree.store greetPath true).run (.fresh "work") =
          (.ok greetArtifact.fingerprint, t) ∧
        Json.load t.reader greetPath = .ok (some greetArtifact.document) := by
  have hstorable : greetArtifact.Storable := by decide
  have hsave : ∃ t, (greetArtifact.save FileTree.store greetPath true).run (.fresh "work") =
      (.ok greetArtifact.fingerprint, t) := by
    unfold Artifact.save
    -- Neither the text nor its hash decides where the file goes.
    generalize greetArtifact.fileText true = text
    generalize greetArtifact.fingerprint = fingerprint
    exact ⟨_, rfl⟩
  obtain ⟨t, ht⟩ := hsave
  obtain ⟨-, -, hfiles⟩ := Artifact.load_save hstorable true
  obtain ⟨-, -, hload⟩ := hfiles greetPath _ t _ ht
  exact ⟨hstorable, t, ht, hload⟩

end WorkflowCompiler
