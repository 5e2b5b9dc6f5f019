import TokenQuota.Proofs.Archive.Intact
import TokenQuota.Proofs.Task.Solo

/-!
The content that is current in an archive, in memory or in a folder. Whoever asks for it while
nobody writes gets it, or fails.
-/

namespace TokenQuota

namespace Folder

variable {ι α : Type} {i : ι} {d : Directory} {a : α}

/-- A directory is read while nobody changes it. -/
theorem does_readAlone (d : Directory) (path : String) :
    (Protocol.solo ι directory).Does i () (fun f => f.directory = d) (read path)
      fun r f => (r = d.read path ∨ r = .error .inputOutput) ∧ f.directory = d := by
  rintro f hf f₁ - - (hsame : f₁.directory = f.directory) -
  obtain rfl : f₁.directory = d := hsame.trans hf
  refine ⟨(), trivial, ?_⟩
  dsimp only
  split
  · rintro f₂ - (hsame : f₂.directory = _)
    exact ⟨rfl, .inr rfl, hsame⟩
  · cases hread : f₁.directory.read path with
    | ok content =>
        rintro f₂ - (hsame : f₂.directory = _)
        exact ⟨rfl, .inl rfl, hsame⟩
    | error e =>
        rintro f₂ - (hsame : f₂.directory = _)
        exact ⟨rfl, .inl rfl, hsame⟩

/-- Nothing else is found than what is there. -/
def Finds (a : α) (d : Directory) (r : Except FileError α) (f : Folder) : Prop :=
  (∀ found, r = .ok found → found = a) ∧ f.directory = d

theorem does_resultAlone {r : Except FileError α} (h : ∀ found, r = .ok found → found = a) :
    (Protocol.solo ι directory).Does i () (fun f => f.directory = d) (Action.ofExcept r)
      (Finds a d) := by
  have hstable : (Protocol.solo ι directory).Stable () fun f => f.directory = d :=
    fun _ _ hsame hd => Eq.trans hsame hd
  refine (Protocol.does_ofExcept hstable r).mono (fun _ hf => hf) ?_
  rintro _ f - ⟨rfl, hf⟩
  exact ⟨h, hf⟩

theorem does_readTextAlone (d : Directory) (path : String) :
    (Protocol.solo ι directory).Does i () (fun f => f.directory = d) (readText? path)
      (Finds ((d.read path).toOption.bind Bytes.text?) d) := by
  refine .bind (does_readAlone d path).outcome (fun r => ?_) fun e f _ hf => absurd hf id
  refine Protocol.does_of_known ?_
  rintro (rfl | rfl)
  · cases d.read path with
    | error e =>
        cases e with
        | noFile => exact does_resultAlone (r := .ok none) (by rintro _ ⟨⟩; rfl)
        | _ => exact does_resultAlone (r := .error _) (by rintro _ ⟨⟩)
    | ok content =>
        cases htext : Bytes.text? content with
        | none =>
            simp only [htext]
            exact does_resultAlone (r := .error _) (by rintro _ ⟨⟩)
        | some text =>
            simp only [htext]
            exact does_resultAlone (r := .ok (some text)) (by rintro _ ⟨⟩; exact htext.symm)
  · exact does_resultAlone (r := .error _) (by rintro _ ⟨⟩)

theorem does_currentAlone (d : Directory) :
    (Protocol.solo ι directory).Does i () (fun f => f.directory = d) current?
      (Finds (current d) d) := by
  refine .bind (does_readTextAlone d currentFile) (fun found => ?_) fun e f _ hf =>
    ⟨by rintro _ ⟨⟩, hf.2⟩
  refine Protocol.does_of_known fun hfound => ?_
  have hcurrent : current d =
      found.bind fun text => (d.read (contentFile (Text.trim text))).toOption := by
    rw [hfound found rfl, Option.bind_assoc]
    rfl
  rw [hcurrent]
  cases found with
  | none => exact does_resultAlone (r := .ok none) (by rintro _ ⟨⟩; rfl)
  | some text =>
      refine .bind (does_readAlone d _) (fun content => ?_) fun e f _ hf =>
        ⟨by rintro _ ⟨⟩, hf.2⟩
      refine Protocol.does_of_known ?_
      rintro (hread | ⟨⟨⟩⟩)
      refine does_resultAlone (r := .ok (some content)) ?_
      rintro _ ⟨⟩
      simp only [Option.bind_some, ← hread, Except.toOption]

/-- When no access fails, an activity comes to its end and leaves a directory as it was. -/
def OnlyReads (x : Access α) : Prop := ∀ d, ∃ r, Leaves x d r d

theorem onlyReads_ofExcept (r : Except FileError α) : OnlyReads (Action.ofExcept r) := by
  intro d
  refine ⟨r, fun f hworks hd => ?_⟩
  cases r with
  | ok a => exact ⟨f, .done _ _, hworks, hd⟩
  | error e => exact ⟨f, .done _ _, hworks, hd⟩

theorem OnlyReads.bind {β : Type} {x : Access α} {g : α → Access β} (hx : OnlyReads x)
    (hg : ∀ a, OnlyReads (g a)) : OnlyReads (x >>= g) := by
  intro d
  obtain ⟨r, hleaves⟩ := hx d
  cases r with
  | ok a =>
      obtain ⟨r', hleaves'⟩ := hg a d
      exact ⟨r', leaves_bind hleaves hleaves'⟩
  | error e => exact ⟨.error e, leaves_bind_error hleaves⟩

theorem OnlyReads.outcome {x : Access α} (hx : OnlyReads x) : OnlyReads x.outcome := by
  intro d
  obtain ⟨r, hleaves⟩ := hx d
  exact ⟨.ok r, leaves_outcome hleaves⟩

theorem onlyReads_read (path : String) : OnlyReads (read path) := by
  intro d
  cases h : d.read path with
  | ok content => exact ⟨.ok content, leaves_access _ (by rw [h]; rfl)⟩
  | error e => exact ⟨.error e, leaves_access_error _ (by rw [h]; rfl)⟩

theorem onlyReads_index : OnlyReads index := by
  refine .bind (.bind (onlyReads_read indexFile).outcome fun r => ?_) fun found => ?_
  · cases r with
    | error e =>
        cases e with
        | noFile => exact onlyReads_ofExcept (.ok none)
        | _ => exact onlyReads_ofExcept (.error _)
    | ok content =>
        cases htext : Bytes.text? content with
        | none =>
            simp only [htext]
            exact onlyReads_ofExcept (.error _)
        | some text =>
            simp only [htext]
            exact onlyReads_ofExcept (.ok _)
  · cases found with
    | none => exact onlyReads_ofExcept (.ok _)
    | some text => exact onlyReads_ofExcept (.ok _)

theorem onlyReads_contents (hashes : List String) : OnlyReads (contents hashes) := by
  induction hashes with
  | nil => exact onlyReads_ofExcept (.ok [])
  | cons hash rest ih =>
      exact .bind (onlyReads_read _) fun content =>
        .bind ih fun more => onlyReads_ofExcept (.ok (content :: more))

theorem onlyReads_history : OnlyReads history :=
  .bind onlyReads_index onlyReads_contents

end Folder

namespace Archive

variable {ι : Type} {i : ι} {a : Archive} {content : Option Bytes}

/-- What an archive has, and not how it is accessed. -/
def source (a : Archive) : Shelf ⊕ Directory :=
  match a.storage with
  | .shelf s => .inl s
  | .folder f => .inr f.directory

/-- The current content, if it can be found. -/
def content? (a : Archive) : Option Bytes :=
  a.source.elim Shelf.current? Folder.current

/-- Nobody is writing to an archive, and there is some current content in it, or none. -/
def Holds (a : Archive) (content : Option Bytes) : Prop :=
  a.Has (fun s => s.current? = content) fun d => ∃ hashes, Folder.Holds d hashes content

theorem Holds.content?_eq (h : a.Holds content) : a.content? = content := by
  obtain ⟨storage, pending, locked⟩ := a
  cases storage with
  | shelf s => exact h.shelf s rfl
  | folder f =>
      obtain ⟨-, hashes, hd⟩ := h.folder f rfl
      exact hd.current_eq

theorem holds_of_shelf {s : Shelf} (h : s.current? = content) :
    (ofStorage (.shelf s)).Holds content :=
  has_shelf h false

/-- Whether changes were noticed makes no difference. -/
theorem Holds.of_storage {a' : Archive} (h : a.Holds content) (hstorage : a'.storage = a.storage)
    (hunlocked : a'.locked = false) : a'.Holds content :=
  ⟨hunlocked, fun s hs => h.shelf s (hstorage.symm.trans hs), fun f hf =>
    h.folder f (hstorage.symm.trans hf)⟩

theorem Holds.noticed (h : a.Holds content) : (notice a).2.Holds content :=
  h.of_storage rfl h.unlocked

theorem Holds.runsTo_keep (h : a.Holds content) (c : Bytes) :
    ∃ a', (keep c).run.RunsTo a (.ok ()) a' ∧ a'.Holds (some c) :=
  Has.runsTo_keep h (fun s _ => s.current?_keep c) fun _ ⟨_, hd⟩ =>
    ⟨_, Folder.leaves_keep hd c, _, Folder.holds_kept hd c⟩

theorem Holds.runsTo_current? (h : a.Holds content) :
    ∃ a', current?.run.RunsTo a (.ok content) a' ∧ a'.Holds content :=
  Has.runsTo_read_ok h (fun _ hs => hs) fun _ ⟨_, hd⟩ => Folder.leaves_current? hd

theorem directory_get (a : Archive) :
    (folder.get a).directory = a.source.elim (fun _ => .absent) id := by
  obtain ⟨storage, pending, locked⟩ := a
  cases storage <;> rfl

/-- Whether all that was kept can be read or not, the current content stays. -/
theorem Holds.runsTo_history (h : a.Holds content) :
    ∃ r a', history.run.RunsTo a r a' ∧ a'.Holds content := by
  obtain ⟨r, a', hrun, hafter, -⟩ := Has.runsTo_read (R := fun _ => True) (g := Shelf.history)
    (x := Folder.history) h (fun _ _ => trivial) fun d _ => (Folder.onlyReads_history d).imp
      fun _ hleaves => ⟨hleaves, trivial⟩
  exact ⟨r, a', hrun, hafter⟩

theorem source_eq_inr_iff {d : Directory} :
    a.source = .inr d ↔ a.source.isRight = true ∧ (folder.get a).directory = d := by
  rw [directory_get]
  cases a.source with
  | inl s => simp
  | inr d' => simp

/-- Whoever asks for the current content while nobody writes finds it, or fails. -/
theorem does_current? (x : Shelf ⊕ Directory) :
    (Protocol.solo ι source).Does i () (fun a => a.source = x) current?
      fun r a => (∀ found, r = .ok found → found = x.elim Shelf.current? Folder.current) ∧
        a.source = x := by
  have hstable : (Protocol.solo ι source).Stable () fun a => a.source = x :=
    fun _ _ hsame ha => Eq.trans hsame ha
  refine .bind (Protocol.does_read (S := fun found a => found = x.getLeft? ∧ a.source = x) hstable
    (fun _ _ _ hsame ha => ⟨ha.1, hstable _ _ hsame ha.2⟩) ?_) (fun found => ?_)
    fun e a _ ha => absurd ha id
  · rintro ⟨storage, pending, locked⟩ - - rfl
    cases storage <;> exact ⟨trivial, rfl, rfl⟩
  · refine Protocol.does_of_known ?_
    rintro rfl
    cases x with
    | inl s =>
        refine (Protocol.does_pure hstable s.current?).mono (fun _ ha => ha) ?_
        rintro _ a - ⟨rfl, ha⟩
        exact ⟨by rintro _ ⟨⟩; rfl, ha⟩
    | inr d =>
        have hfolder : (Protocol.solo ι source).Does i () (fun a => a.source.isRight = true ∧
            (folder.get a).directory = d) (Action.onPart folder Folder.current?)
            fun r a => a.source.isRight = true ∧ Folder.Finds (Folder.current d) d r
              (folder.get a) := by
          refine (Folder.does_currentAlone (i := ()) d).onPart (fun _ _ => rfl) ?_ ?_
            fun _ _ _ => rfl
          · intro a a' hsame
            rw [directory_get, directory_get, hsame]
          · intro a a' (hsame : a'.source = a.source) ha
            rwa [hsame]
        refine (hfolder.adapt ofFileError).mono (fun a ha => source_eq_inr_iff.mp ha) ?_
        rintro _ a - ⟨r, rfl, hright, hfound, hd⟩
        refine ⟨?_, source_eq_inr_iff.mpr ⟨hright, hd⟩⟩
        cases r with
        | error e => rintro _ ⟨⟩
        | ok found =>
            rintro _ ⟨⟩
            exact hfound found rfl

end Archive

end TokenQuota
