import TokenQuota.Proofs.Archive.Intact
import TokenQuota.Proofs.Task.Protocol

/-!
How a content is kept in an intact directory, while any access may fail: the directory is intact
all the time, and the content becomes the current one with the last access, or not at all.
-/

namespace TokenQuota

namespace Folder

open TokenQuota.Digest
open TokenQuota.Protocol (either)

/-- The directory is intact. -/
def IsIntact (contents : List Bytes) (d : Directory) : Prop :=
  ∃ hashes, Intact contents d hashes

/-- A directory stays intact, with the same current content. -/
structure Spares (contents : List Bytes) (d d' : Directory) : Prop where
  isIntact : IsIntact contents d'
  current : current d' = current d

/-- To keep a content: its role tells whether it was made the current one. Nobody else changes the
directory. -/
def keeping (contents : List Bytes) (c : Bytes) : Protocol Unit Bool Folder where
  inv s := IsIntact contents s.directory
  given _ := True
  rely _ s s' := s'.directory = s.directory
  move _ made made' s s' := (made' = made ∧ Spares contents s.directory s'.directory) ∨
    (made = false ∧ made' = true ∧ IsIntact contents s'.directory ∧
      current s'.directory = some c)
  rely_refl _ _ := rfl
  rely_trans h h' := h'.trans h

variable {contents : List Bytes} {c : Bytes} {made : Bool} {α β : Type}

/-- What an activity does as far as the directory goes: at the end it tells something about the
result and the directory, in which the current content is still the same. -/
def Does (contents : List Bytes) (c : Bytes) (F : Directory → Prop) (x : Access α)
    (R : Except FileError α → Directory → Prop) : Prop :=
  (keeping contents c).Does () false (fun s => F s.directory) x fun r s => R r s.directory

variable {F F' : Directory → Prop} {d d' : Directory}

theorem stable_directory (F : Directory → Prop) :
    (keeping contents c).Stable made fun s => F s.directory := by
  intro s s' (hsame : s'.directory = s.directory) hF
  rwa [hsame]

theorem Does.bind {x : Access α} {f : α → Access β} {S : β → Directory → Prop}
    {R : α → Directory → Prop} (hx : Does contents c F x (either R fun _ => True))
    (hf : ∀ a, Does contents c (R a) (f a) (either S fun _ => True)) :
    Does contents c F (x >>= f) (either S fun _ => True) :=
  Protocol.Does.bind hx hf fun _ _ _ _ => trivial

theorem Does.bind_outcome {x : Access α} {f : Except FileError α → Access β}
    {R : Except FileError α → Directory → Prop} {S : β → Directory → Prop}
    (hx : Does contents c F x R)
    (hf : ∀ r, Does contents c (R r) (f r) (either S fun _ => True)) :
    Does contents c F (x.outcome >>= f) (either S fun _ => True) :=
  Protocol.Does.bind (Protocol.Does.outcome hx) hf fun _ _ _ _ => trivial

theorem Spares.refl (h : IsIntact contents d) : Spares contents d d := ⟨h, rfl⟩

/-- An access that fails leaves what it leaves, and another one what it should. -/
theorem does_access {torn : Folder → Directory} {g : Directory → Except FileError (α × Directory)}
    {R : Except FileError α → Directory → Prop}
    (hok : ∀ d a d', IsIntact contents d → F d → g d = .ok (a, d') →
      Spares contents d d' ∧ R (.ok a) d')
    (herror : ∀ d e, IsIntact contents d → F d → g d = .error e → R (.error e) d)
    (htorn : ∀ s : Folder, IsIntact contents s.directory → F s.directory →
      Spares contents s.directory (torn s) ∧ R (.error .inputOutput) (torn s)) :
    Does contents c F (access torn g) R := by
  intro s hF s₁ hinv _ hrely _
  have hF₁ : F s₁.directory := stable_directory F s s₁ hrely hF
  have hafter : ∀ (r : Except FileError α) (s₂ : Folder), R r s₂.directory →
      ∀ s₃, (keeping contents c).inv s₃ → (keeping contents c).rely false s₂ s₃ →
        false = false ∧ R r s₃.directory := by
    intro r s₂ hR s₃ _ (hsame : s₃.directory = s₂.directory)
    rw [hsame]
    exact ⟨rfl, hR⟩
  dsimp only
  split
  · obtain ⟨hspares, hR⟩ := htorn s₁ hinv hF₁
    exact ⟨false, .inl ⟨rfl, hspares⟩, hafter _ _ hR⟩
  · split
    · rename_i a d heq
      obtain ⟨hspares, hR⟩ := hok _ a d hinv hF₁ heq
      exact ⟨false, .inl ⟨rfl, hspares⟩, hafter _ _ hR⟩
    · rename_i e heq
      exact ⟨false, .inl ⟨rfl, .refl hinv⟩, hafter _ _ (herror _ e hinv hF₁ heq)⟩

/-- Drafts make no difference to a fact about a directory. -/
def Firm (F : Directory → Prop) : Prop := ∀ d d', SameButDrafts d d' → F d → F d'

theorem SameButDrafts.spares (h : SameButDrafts d d') (hd : IsIntact contents d)
    (hdigests : NoCollision contents) : Spares contents d d' := by
  obtain ⟨hashes, hintact⟩ := hd
  exact ⟨⟨hashes, h.intact hintact⟩, hintact.current_congr (h.intact hintact) hdigests
    (h.files _ currentFile_ne_draftFile)⟩

section Steps

variable (hdigests : NoCollision contents)

include hdigests

theorem does_make (hF : Firm F) :
    Does contents c F make (either (fun _ => F) fun _ => True) := by
  refine does_access ?_ (fun _ _ _ _ _ => trivial) fun s hinv _ => ⟨.refl hinv, trivial⟩
  intro d u d' hinv hFd hmake
  cases hmade : d.make with
  | error e =>
      rw [hmade] at hmake
      cases hmake
  | ok made =>
      rw [hmade] at hmake
      cases hmake
      have hsame := sameButDrafts_make hmade
      exact ⟨hsame.spares hinv hdigests, hF d _ hsame hFd⟩

/-- A draft is written, or what is left of it. -/
theorem does_writeDraft (hF : Firm F) (name : String) (b : Bytes) :
    Does contents c F (write (draftFile name) b)
      (either (fun _ d => F d ∧ d.nodes.get? (draftFile name) = some (.file b)) fun _ => True) := by
  refine does_access ?_ (fun _ _ _ _ _ => trivial) ?_
  · intro d u d' hinv hFd hwrite
    cases hwritten : d.write (draftFile name) b with
    | error e =>
        rw [hwritten] at hwrite
        cases hwrite
    | ok after =>
        rw [hwritten] at hwrite
        cases hwrite
        obtain ⟨hsame, hfile⟩ := sameButDrafts_write hwritten
        exact ⟨hsame.spares hinv hdigests, hF d _ hsame hFd, hfile⟩
  · intro s hinv _
    refine ⟨?_, trivial⟩
    unfold afterTorn
    split
    · exact .refl hinv
    · split
      · rename_i after hwritten
        exact (sameButDrafts_write hwritten).1.spares hinv hdigests
      · exact .refl hinv

omit hdigests in
theorem does_renameDraft {name : String} {b : Bytes}
    (hF' : ∀ d d', IsIntact contents d → F d → Replaces name b d d' →
      Spares contents d d' ∧ F' d') :
    Does contents c (fun d => F d ∧ d.nodes.get? (draftFile name) = some (.file b))
      (rename (draftFile name) name) (either (fun _ => F') fun _ => True) := by
  refine does_access ?_ (fun _ _ _ _ _ => trivial) fun s hinv _ => ⟨.refl hinv, trivial⟩
  rintro d u d' hinv ⟨hFd, hdraft⟩ hrename
  cases hrenamed : d.rename (draftFile name) name with
  | error e =>
      rw [hrenamed] at hrename
      cases hrename
  | ok after =>
      rw [hrenamed] at hrename
      cases hrename
      exact hF' d _ hinv hFd (replaces_rename hdraft hrenamed)

theorem does_replace (hF : Firm F) {name : String} {b : Bytes}
    (hF' : ∀ d d', IsIntact contents d → F d → Replaces name b d d' →
      Spares contents d d' ∧ F' d') :
    Does contents c F (replace name b) (either (fun _ => F') fun _ => True) :=
  .bind (does_writeDraft hdigests hF name b) fun _ => does_renameDraft hF'

end Steps

theorem does_read {name : String} (hname : Directory.IsPlain name) :
    Does contents c F (read name) fun r d => F d ∧
      (∀ content, r = .ok content → d.nodes.get? name = some (.file content)) ∧
      (r = .error .noFile → d.nodes.get? name = none) := by
  refine does_access ?_ ?_ ?_
  · rintro d content d' hinv hF hread
    obtain ⟨hashes, hintact⟩ := hinv
    cases hfound : d.read name with
    | error e =>
        rw [hfound] at hread
        cases hread
    | ok found =>
        rw [hfound] at hread
        cases hread
        refine ⟨.refl ⟨hashes, hintact⟩, hF, ?_, by rintro ⟨⟩⟩
        rintro _ ⟨⟩
        exact ((Directory.read_of_isPlain hname hintact.notBlocked).1 _).mp hfound
  · rintro d e ⟨hashes, hintact⟩ hF hread
    cases hfound : d.read name with
    | error e' =>
        rw [hfound] at hread
        cases hread
        refine ⟨hF, by rintro _ ⟨⟩, ?_⟩
        rintro ⟨⟩
        exact (Directory.read_of_isPlain hname hintact.notBlocked).2.mp hfound
    | ok found =>
        rw [hfound] at hread
        cases hread
  · exact fun s hinv hF => ⟨.refl hinv, hF, by rintro _ ⟨⟩, by rintro ⟨⟩⟩

/-- A text is what a file has in it, or there is no file. -/
def Reads (name : String) : Option String → Directory → Prop
  | none, d => d.nodes.get? name = none
  | some text, d => ∃ content, d.nodes.get? name = some (.file content) ∧
      Bytes.text? content = some text

/-- To give a result changes nothing. -/
theorem does_result {x : Except FileError α} {R : Except FileError α → Directory → Prop}
    (h : ∀ d, IsIntact contents d → F d → R x d) :
    Does contents c F (Action.ofExcept x) R := by
  refine (Protocol.does_ofExcept (stable_directory F) x).mono (fun _ hs => hs) ?_
  rintro r s hinv ⟨rfl, hF⟩
  exact h _ hinv hF

theorem does_readText? {name : String} (hname : Directory.IsPlain name) :
    Does contents c F (readText? name)
      (either (fun found d => F d ∧ Reads name found d) fun _ => True) := by
  refine (does_read hname).bind_outcome ?_
  intro r
  cases r with
  | error e =>
      cases e with
      | noFile => exact does_result (x := .ok none) fun d _ hd => ⟨hd.1, hd.2.2 rfl⟩
      | _ => exact does_result (x := .error _) fun _ _ _ => trivial
  | ok content =>
      cases htext : Bytes.text? content with
      | none =>
          simp only [htext]
          exact does_result (x := .error _) fun _ _ _ => trivial
      | some text =>
          simp only [htext]
          exact does_result (x := .ok (some text)) fun d _ hd =>
            ⟨hd.1, content, hd.2.1 content rfl, htext⟩

theorem Intact.listed_eq {hashes : List String} (h : Intact contents d hashes)
    {found : Option String} (hfound : Reads indexFile found d) :
    found.elim [] listed = hashes := by
  have hindex := h.index
  unfold indexNode at hindex
  split at hindex
  · rename_i hnil
    cases found with
    | none => exact hnil.symm
    | some text =>
        obtain ⟨content, hfile, -⟩ := hfound
        rw [hindex] at hfile
        cases hfile
  · rename_i hne
    cases found with
    | none =>
        have hnone : d.nodes.get? indexFile = none := hfound
        rw [hindex] at hnone
        cases hnone
    | some text =>
        obtain ⟨content, hfile, htext⟩ := hfound
        rw [hindex] at hfile
        cases hfile
        rw [listing, Bytes.text?_ofString] at htext
        cases htext
        exact listed_listing h.isWord hne

/-- The digests that are read are those that are listed. -/
theorem does_index : Does contents c F index
    (either (fun hashes d => F d ∧ Intact contents d hashes) fun _ => True) := by
  refine .bind (does_readText? isPlain_indexFile) ?_
  intro found
  have hresult : Does contents c (fun d => F d ∧ Reads indexFile found d)
      (Action.ofExcept (.ok (found.elim [] listed)))
      (either (fun hashes d => F d ∧ Intact contents d hashes) fun _ => True) := by
    refine does_result fun d hinv hd => ?_
    obtain ⟨hashes, hintact⟩ := hinv
    refine ⟨hd.1, ?_⟩
    rw [hintact.listed_eq hd.2]
    exact hintact
  cases found with
  | none => exact hresult
  | some text => exact hresult

/-- The digest of a content stands for it. -/
def IsStored (c : Bytes) (d : Directory) : Prop :=
  d.nodes.get? (contentFile (contentHash c)) = some (.file c)

theorem firm_isStored (c : Bytes) : Firm (IsStored c) := by
  intro d d' h hd
  exact (h.files _ (contentFile_ne_draftFile _)).trans hd

/-- A content is listed in an intact directory. -/
def IsListed (contents : List Bytes) (c : Bytes) (d : Directory) : Prop :=
  ∃ hashes, Intact contents d hashes ∧ contentHash c ∈ hashes

theorem firm_isListed (contents : List Bytes) (c : Bytes) : Firm (IsListed contents c) := by
  rintro d d' h ⟨hashes, hintact, hlisted⟩
  exact ⟨hashes, h.intact hintact, hlisted⟩

section Keeping

variable (hdigests : NoCollision contents) (hc : c ∈ contents)

include hdigests hc

theorem does_store : Does contents c (fun _ => True)
    (replace (contentFile (contentHash c)) c) (either (fun _ => IsStored c) fun _ => True) := by
  refine does_replace hdigests (fun _ _ _ _ => trivial) ?_
  rintro d d' ⟨hashes, hintact⟩ - hreplaces
  have hintact' := hreplaces.intact_content hintact hc
  refine ⟨⟨⟨hashes, hintact'⟩, hintact.current_congr hintact' hdigests ?_⟩, hreplaces.file⟩
  exact hreplaces.others _ (contentFile_ne_currentFile _).symm currentFile_ne_draftFile

theorem does_list (hashes : List String) :
    Does contents c (fun d => IsStored c d ∧ Intact contents d hashes)
      (replace indexFile (listing (hashes ++ [contentHash c])))
      (either (fun _ => IsListed contents c) fun _ => True) := by
  refine does_replace hdigests ?_ ?_
  · exact fun d d' h hd => ⟨firm_isStored c d d' h hd.1, h.intact hd.2⟩
  · rintro d d' - ⟨hstored, hintact⟩ hreplaces
    have hintact' := hreplaces.intact_index hintact hc hstored
    refine ⟨⟨⟨_, hintact'⟩, hintact.current_congr hintact' hdigests ?_⟩, _, hintact', ?_⟩
    · exact hreplaces.others _ currentFile_ne_indexFile currentFile_ne_draftFile
    · exact List.mem_append_right _ List.mem_cons_self

/-- What is listed becomes the current content at one step, or not at all. -/
theorem safe_makeCurrent {s : Folder} (hs : IsListed contents c s.directory) :
    (keeping contents c).Safe () (fun made r _ => made = r.isOk)
      (replace currentFile (Bytes.ofString (contentHash c))).run false s := by
  have hdraft := does_writeDraft (c := c) hdigests (firm_isListed contents c) currentFile
    (Bytes.ofString (contentHash c))
  refine Protocol.Does.safe_bind hdraft ?_ (fun _ _ _ _ => rfl) hs
  rintro u s₁ - ⟨hlisted, hfile⟩ s₂ hinv - hrely -
  have hsame : s₂.directory = s₁.directory := hrely
  rw [← hsame] at hlisted hfile
  dsimp only
  split
  · exact ⟨false, .inl ⟨rfl, .refl hinv⟩, fun _ _ _ => rfl⟩
  · cases hrenamed : s₂.directory.rename (draftFile currentFile) currentFile with
    | error e => exact ⟨false, .inl ⟨rfl, .refl hinv⟩, fun _ _ _ => rfl⟩
    | ok after =>
        obtain ⟨hashes, hintact, hmem⟩ := hlisted
        have hreplaces := replaces_rename hfile hrenamed
        refine ⟨true, .inr ⟨rfl, rfl, ⟨hashes, hreplaces.intact_current hintact hmem⟩, ?_⟩,
          fun _ _ _ => rfl⟩
        exact hreplaces.current_eq hintact hmem hc hdigests

/-- However it ends, and whatever fails: a content is the current one when it was kept, and only
then. -/
theorem safe_keep (s : Folder) :
    (keeping contents c).Safe () (fun made r _ => made = r.isOk) (keep c).run false s := by
  have hmake := does_make (c := c) hdigests (F := fun _ => True) fun _ _ _ _ => trivial
  refine Protocol.Does.safe_bind hmake ?_ (fun _ _ _ _ => rfl) trivial
  rintro u s₁ - -
  refine Protocol.Does.safe_bind (does_store hdigests hc) ?_ (fun _ _ _ _ => rfl) trivial
  rintro u s₂ - hstored
  refine Protocol.Does.safe_bind does_index ?_ (fun _ _ _ _ => rfl) hstored
  rintro hashes s₃ - hs₃
  by_cases hlisted : contentHash c ∈ hashes
  · simp only [hlisted, List.contains_eq_mem, decide_true, Bool.not_true]
    exact safe_makeCurrent hdigests hc ⟨hashes, hs₃.2, hlisted⟩
  · simp only [hlisted, List.contains_eq_mem, decide_false, Bool.not_false, if_true]
    refine Protocol.Does.safe_bind (does_list hdigests hc hashes) ?_ (fun _ _ _ _ => rfl) hs₃
    exact fun u s₄ _ hs₄ => safe_makeCurrent hdigests hc hs₄

end Keeping

end Folder

end TokenQuota
