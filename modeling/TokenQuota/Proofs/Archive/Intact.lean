import TokenQuota.Proofs.Archive.Contents

/-!
Directories in which every digest that is listed, or that names the current content, stands for a
content that is there. Drafts do not count, and a draft takes the place of a file at once, so that
such a directory stays one however far a content has come that is being kept.
-/

namespace TokenQuota

namespace Directory

/-- A file that can be read has its place among the entries, and one that is not there has none. -/
theorem read_of_isPlain {d : Directory} {name : String} (hname : IsPlain name)
    (hd : d ≠ .blocked) :
    (∀ content, d.read name = .ok content ↔ d.nodes.get? name = some (.file content)) ∧
      (d.read name = .error .noFile ↔ d.nodes.get? name = none) := by
  rw [read, node_of_isPlain hname hd]
  cases d.nodes.get? name with
  | none => exact ⟨fun content => ⟨by rintro ⟨⟩, by rintro ⟨⟩⟩, ⟨fun _ => rfl, fun _ => rfl⟩⟩
  | some node =>
      cases node with
      | file content' =>
          refine ⟨fun content => ⟨?_, ?_⟩, ⟨by rintro ⟨⟩, by rintro ⟨⟩⟩⟩
          · rintro ⟨⟩
            rfl
          · rintro ⟨⟩
            rfl
      | directory =>
          exact ⟨fun content => ⟨by rintro ⟨⟩, by rintro ⟨⟩⟩, ⟨by rintro ⟨⟩, by rintro ⟨⟩⟩⟩

end Directory

namespace Folder

open TokenQuota.Directory TokenQuota.Digest

/-- The content that is named as the current one, if it can be found. -/
def current (d : Directory) : Option Bytes := do
  let octets ← (d.read currentFile).toOption
  let text ← Bytes.text? octets
  (d.read (contentFile (Text.trim text))).toOption

/-- Digests are listed, each of one of some contents that is in its file. The current content, if
there is one, is among these. -/
structure Intact (contents : List Bytes) (d : Directory) (hashes : List String) : Prop where
  notBlocked : d ≠ .blocked
  index : d.nodes.get? indexFile = indexNode hashes
  content : ∀ hash ∈ hashes, ∃ c ∈ contents, contentHash c = hash ∧
    d.nodes.get? (contentFile hash) = some (.file c)
  current : d.nodes.get? currentFile = none ∨
    ∃ hash ∈ hashes, d.nodes.get? currentFile = some (.file (Bytes.ofString hash))

variable {contents : List Bytes} {d d' : Directory} {hashes hashes' : List String}

theorem intact_nil (h : d.IsVacant) : Intact contents d [] where
  notBlocked := h.notBlocked
  index := h.noIndex
  content := by simp
  current := .inl h.noCurrent

theorem Intact.isWord (h : Intact contents d hashes) : ∀ hash ∈ hashes, Text.IsWord hash := by
  intro hash hmem
  obtain ⟨c, -, rfl, -⟩ := h.content hash hmem
  exact isWord_contentHash c

theorem read_contentFile {c : Bytes} (hd : d ≠ .blocked)
    (h : d.nodes.get? (contentFile (contentHash c)) = some (.file c)) :
    d.read (contentFile (contentHash c)) = .ok c :=
  ((read_of_isPlain (isPlain_contentFile c) hd).1 c).mpr h

theorem current_of_none (hd : d ≠ .blocked) (h : d.nodes.get? currentFile = none) :
    Folder.current d = none := by
  rw [Folder.current, (read_of_isPlain isPlain_currentFile hd).2.mpr h]
  rfl

theorem current_of_some {c : Bytes} (hd : d ≠ .blocked)
    (h : d.nodes.get? currentFile = some (.file (Bytes.ofString (contentHash c))))
    (hcontent : d.nodes.get? (contentFile (contentHash c)) = some (.file c)) :
    Folder.current d = some c := by
  have hread := ((read_of_isPlain isPlain_currentFile hd).1 _).mpr h
  simp only [Folder.current, hread, Except.toOption, Option.bind_eq_bind, Option.bind_some,
    Bytes.text?_ofString, (isWord_contentHash c).trim_eq, read_contentFile hd hcontent]

theorem Holds.current_eq {content : Option Bytes} (h : Holds d hashes content) :
    Folder.current d = content := by
  have hcurrent := h.current
  cases content with
  | none => exact current_of_none h.notBlocked hcurrent
  | some c => exact current_of_some h.notBlocked hcurrent (h.found c rfl)

/-- There is no current content, or it is one of those that are listed, under its digest. -/
theorem Intact.current_eq (h : Intact contents d hashes) :
    (d.nodes.get? currentFile = none ∧ Folder.current d = none) ∨
      ∃ c ∈ contents, contentHash c ∈ hashes ∧ Folder.current d = some c ∧
        d.nodes.get? currentFile = some (.file (Bytes.ofString (contentHash c))) ∧
        d.nodes.get? (contentFile (contentHash c)) = some (.file c) := by
  rcases h.current with hnone | ⟨hash, hmem, hnode⟩
  · exact .inl ⟨hnone, current_of_none h.notBlocked hnone⟩
  · obtain ⟨c, hc, rfl, hcontent⟩ := h.content hash hmem
    exact .inr ⟨c, hc, hmem, current_of_some h.notBlocked hnode hcontent, hnode, hcontent⟩

theorem leaves_current?_of_intact (h : Intact contents d hashes) :
    Leaves current? d (.ok (Folder.current d)) d := by
  rcases h.current_eq with ⟨hnone, hcurrent⟩ | ⟨c, -, -, hcurrent, hnode, hcontent⟩
  · rw [hcurrent]
    exact leaves_current?_of_none h.notBlocked hnone
  · rw [hcurrent]
    exact leaves_current?_of_some hnode hcontent

/-- What is listed is all read, in its order. -/
theorem leaves_history_of_intact (h : Intact contents d hashes) :
    ∃ row, Leaves history d (.ok row) d ∧ row.map contentHash = hashes ∧
      ∀ c ∈ row, c ∈ contents := by
  have hrow : ∃ row : List Bytes, row.map contentHash = hashes ∧
      ∀ c ∈ row, c ∈ contents ∧ d.nodes.get? (contentFile (contentHash c)) = some (.file c) := by
    have hcontent := h.content
    clear h
    induction hashes with
    | nil => exact ⟨[], rfl, by simp⟩
    | cons hash hashes ih =>
        obtain ⟨⟨c, hc, rfl, hfile⟩, hrest⟩ := List.forall_mem_cons.mp hcontent
        obtain ⟨row, rfl, hrow⟩ := ih hrest
        exact ⟨c :: row, rfl, List.forall_mem_cons.mpr ⟨⟨hc, hfile⟩, hrow⟩⟩
  obtain ⟨row, rfl, hrow⟩ := hrow
  refine ⟨row, ?_, rfl, fun c hc => (hrow c hc).1⟩
  exact leaves_bind (leaves_index h.notBlocked h.index h.isWord)
    (leaves_contents fun c hc => (hrow c hc).2)

/-- As long as the same digest names the current content, it is the same content. -/
theorem Intact.current_congr (h : Intact contents d hashes) (h' : Intact contents d' hashes')
    (hdigests : NoCollision contents)
    (hnode : d'.nodes.get? currentFile = d.nodes.get? currentFile) :
    Folder.current d' = Folder.current d := by
  rcases h.current_eq with ⟨hnone, hcurrent⟩ | ⟨c, hc, -, hcurrent, hnamed, -⟩
  · rcases h'.current_eq with ⟨-, hcurrent'⟩ | ⟨c', -, -, -, hnamed', -⟩
    · rw [hcurrent, hcurrent']
    · rw [hnode, hnone] at hnamed'
      cases hnamed'
  · rcases h'.current_eq with ⟨hnone', -⟩ | ⟨c', hc', -, hcurrent', hnamed', -⟩
    · rw [hnode, hnamed] at hnone'
      cases hnone'
    · rw [hnode, hnamed] at hnamed'
      have hhash := Bytes.ofString_inj (Node.file.inj (Option.some.inj hnamed'))
      rw [hcurrent, hcurrent', hdigests c hc c' hc' hhash]

/-- Two directories have the same entries, drafts aside. -/
structure SameButDrafts (d d' : Directory) : Prop where
  notBlocked : d ≠ .blocked → d' ≠ .blocked
  files : ∀ name, (∀ other, name ≠ draftFile other) → d'.nodes.get? name = d.nodes.get? name

theorem currentFile_ne_draftFile (name : String) : currentFile ≠ draftFile name :=
  ne_of_getLast? 't' 'p' rfl (getLast?_draftFile name) (by decide)

theorem SameButDrafts.intact (h : SameButDrafts d d') (hd : Intact contents d hashes) :
    Intact contents d' hashes where
  notBlocked := h.notBlocked hd.notBlocked
  index := (h.files _ indexFile_ne_draftFile).trans hd.index
  content hash hmem := by
    rw [h.files _ (contentFile_ne_draftFile hash)]
    exact hd.content hash hmem
  current := by
    rw [h.files _ currentFile_ne_draftFile]
    exact hd.current

theorem sameButDrafts_write {name : String} {content : Bytes}
    (h : d.write (draftFile name) content = .ok d') :
    SameButDrafts d d' ∧ d'.nodes.get? (draftFile name) = some (.file content) := by
  cases d with
  | absent => cases h
  | blocked => cases h
  | present nodes =>
      rw [Directory.write] at h
      split at h
      · cases h
      · cases h
        change SameButDrafts _ _ ∧ (nodes.insert (draftFile name) _).get? _ = _
        rw [NameMap.get?_insert, if_pos rfl]
        refine ⟨⟨fun _ => by simp, ?_⟩, rfl⟩
        intro other hother
        change (nodes.insert (draftFile name) _).get? other = nodes.get? other
        rw [NameMap.get?_insert, if_neg (hother name)]

theorem sameButDrafts_make (h : d.make = .ok d') : SameButDrafts d d' := by
  cases d with
  | absent =>
      cases h
      exact ⟨fun _ => by simp, fun _ _ => rfl⟩
  | blocked => cases h
  | present nodes =>
      cases h
      exact ⟨id, fun _ _ => rfl⟩

/-- A file was replaced by one with some content, and nothing else changed, drafts aside. -/
structure Replaces (name : String) (content : Bytes) (d d' : Directory) : Prop where
  notBlocked : d' ≠ .blocked
  file : d'.nodes.get? name = some (.file content)
  others : ∀ other, other ≠ name → (∀ draft, other ≠ draftFile draft) →
    d'.nodes.get? other = d.nodes.get? other

theorem replaces_rename {name : String} {content : Bytes}
    (hdraft : d.nodes.get? (draftFile name) = some (.file content))
    (h : d.rename (draftFile name) name = .ok d') : Replaces name content d d' := by
  cases d with
  | absent => cases h
  | blocked => cases h
  | present nodes =>
      have hfound : nodes.get? (draftFile name) = some (.file content) := hdraft
      simp only [Directory.rename, hfound] at h
      split at h
      · cases h
      · cases h
        refine ⟨by simp, ?_, ?_⟩
        · change ((nodes.erase _).insert name _).get? name = _
          rw [NameMap.get?_insert, if_pos rfl]
        · intro other hne hother
          change ((nodes.erase _).insert name _).get? other = nodes.get? other
          rw [NameMap.get?_insert, if_neg hne, NameMap.get?_erase, if_neg (hother name)]

variable {c : Bytes}

/-- A content may be put in its file. If it is listed it is there already. -/
theorem Replaces.intact_content (h : Replaces (contentFile (contentHash c)) c d d')
    (hd : Intact contents d hashes) (hc : c ∈ contents) : Intact contents d' hashes where
  notBlocked := h.notBlocked
  index := (h.others _ (contentFile_ne_indexFile _).symm indexFile_ne_draftFile).trans hd.index
  content hash hmem := by
    by_cases heq : hash = contentHash c
    · subst heq
      exact ⟨c, hc, rfl, h.file⟩
    · rw [h.others _ (fun hfile => heq (contentFile_inj hfile)) (contentFile_ne_draftFile hash)]
      exact hd.content hash hmem
  current := by
    rw [h.others _ (contentFile_ne_currentFile _).symm currentFile_ne_draftFile]
    exact hd.current

/-- The digest of a content that is in its file may be listed. -/
theorem Replaces.intact_index (h : Replaces indexFile (listing (hashes ++ [contentHash c])) d d')
    (hd : Intact contents d hashes) (hc : c ∈ contents)
    (hcontent : d.nodes.get? (contentFile (contentHash c)) = some (.file c)) :
    Intact contents d' (hashes ++ [contentHash c]) where
  notBlocked := h.notBlocked
  index := h.file.trans (indexNode_concat hashes (contentHash c)).symm
  content hash hmem := by
    rw [h.others _ (contentFile_ne_indexFile hash) (contentFile_ne_draftFile hash)]
    rcases List.mem_append.mp hmem with hmem | hmem
    · exact hd.content hash hmem
    · rw [List.mem_singleton.mp hmem]
      exact ⟨c, hc, rfl, hcontent⟩
  current := by
    rw [h.others _ currentFile_ne_indexFile currentFile_ne_draftFile]
    rcases hd.current with hnone | ⟨hash, hmem, hnode⟩
    · exact .inl hnone
    · exact .inr ⟨hash, List.mem_append_left _ hmem, hnode⟩

/-- A content that is listed may become the current one. -/
theorem Replaces.intact_current
    (h : Replaces currentFile (Bytes.ofString (contentHash c)) d d')
    (hd : Intact contents d hashes) (hlisted : contentHash c ∈ hashes) :
    Intact contents d' hashes where
  notBlocked := h.notBlocked
  index := (h.others _ currentFile_ne_indexFile.symm indexFile_ne_draftFile).trans hd.index
  content hash hmem := by
    rw [h.others _ (contentFile_ne_currentFile hash) (contentFile_ne_draftFile hash)]
    exact hd.content hash hmem
  current := .inr ⟨_, hlisted, h.file⟩

/-- Then it is the current one. -/
theorem Replaces.current_eq (h : Replaces currentFile (Bytes.ofString (contentHash c)) d d')
    (hd : Intact contents d hashes) (hlisted : contentHash c ∈ hashes) (hc : c ∈ contents)
    (hdigests : NoCollision contents) : Folder.current d' = some c := by
  rcases (h.intact_current hd hlisted).current_eq with ⟨hnone, -⟩ | ⟨c', hc', -, hcurrent, hnode, -⟩
  · rw [h.file] at hnone
    cases hnone
  · rw [h.file] at hnode
    have hhash := Bytes.ofString_inj (Node.file.inj (Option.some.inj hnode))
    rw [hcurrent, hdigests c hc c' hc' hhash]

end Folder

end TokenQuota
