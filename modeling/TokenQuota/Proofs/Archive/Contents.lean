import Mathlib.Data.List.Induction
import TokenQuota.Archive.Basic
import TokenQuota.Proofs.Archive.Folders

/-!
A row of contents as an archive keeps it: each of them once, in the order in which they first came,
and the last one as the current one. An archive in memory and one in a folder, which may be opened
again between any two calls, give the same answers.
-/

namespace TokenQuota

namespace Digest

/-- Contents whose digests tell them apart. -/
def NoCollision (contents : List Bytes) : Prop :=
  ∀ c ∈ contents, ∀ c' ∈ contents, contentHash c = contentHash c' → c = c'

instance (contents : List Bytes) : Decidable (NoCollision contents) :=
  inferInstanceAs (Decidable (∀ c ∈ contents, ∀ c' ∈ contents, _ → c = c'))

/-- The digests of contents, each at the place where it first came. -/
def digests (contents : List Bytes) : List String :=
  (contents.map contentHash).eraseDups

theorem eraseDups_concat_of_mem {α : Type} [BEq α] [LawfulBEq α] {l : List α} {a : α}
    (h : a ∈ l) : (l ++ [a]).eraseDups = l.eraseDups := by
  rw [List.eraseDups_append, List.cons_removeAll, if_neg (by simpa using h), List.nil_removeAll,
    List.eraseDups_nil, List.append_nil]

theorem eraseDups_concat_of_notMem {α : Type} [BEq α] [LawfulBEq α] {l : List α} {a : α}
    (h : a ∉ l) : (l ++ [a]).eraseDups = l.eraseDups ++ [a] := by
  rw [List.eraseDups_append, List.cons_removeAll, if_pos (by simpa using h), List.nil_removeAll,
    List.eraseDups_cons, List.filter_nil, List.eraseDups_nil]

theorem eraseDups_of_nodup {α : Type} [BEq α] [LawfulBEq α] {l : List α} (h : l.Nodup) :
    l.eraseDups = l := by
  induction l using List.reverseRecOn with
  | nil => rfl
  | append_singleton l a ih =>
      obtain ⟨hl, -, hne⟩ := List.nodup_append.mp h
      rw [eraseDups_concat_of_notMem fun ha => hne a ha a List.mem_cons_self rfl, ih hl]

theorem mem_digests {contents : List Bytes} {hash : String} :
    hash ∈ digests contents ↔ ∃ c ∈ contents, contentHash c = hash := by
  rw [digests, List.mem_eraseDups, List.mem_map]

theorem digests_concat_of_mem {contents : List Bytes} {c : Bytes}
    (h : contentHash c ∈ digests contents) : digests (contents ++ [c]) = digests contents := by
  rw [digests, List.map_append, List.map_singleton]
  exact eraseDups_concat_of_mem (List.mem_eraseDups.mp h)

theorem digests_concat_of_notMem {contents : List Bytes} {c : Bytes}
    (h : contentHash c ∉ digests contents) :
    digests (contents ++ [c]) = digests contents ++ [contentHash c] := by
  rw [digests, List.map_append, List.map_singleton]
  exact eraseDups_concat_of_notMem fun hmem => h (List.mem_eraseDups.mpr hmem)

theorem digests_concat (contents : List Bytes) (c : Bytes) :
    digests (contents ++ [c]) =
      if contentHash c ∈ digests contents then digests contents
      else digests contents ++ [contentHash c] := by
  split
  · rename_i h
    exact digests_concat_of_mem h
  · rename_i h
    exact digests_concat_of_notMem h

theorem isWord_of_mem_digests {contents : List Bytes} {hash : String}
    (h : hash ∈ digests contents) : Text.IsWord hash := by
  obtain ⟨c, -, rfl⟩ := mem_digests.mp h
  exact isWord_contentHash c

theorem NoCollision.of_append {contents more : List Bytes} (h : NoCollision (contents ++ more)) :
    NoCollision contents := by
  intro c hc c' hc'
  exact h c (List.mem_append_left _ hc) c' (List.mem_append_left _ hc')

/-- Contents that the digests tell apart come in the order of their digests. -/
theorem digests_eq_map {contents : List Bytes} (h : NoCollision contents) :
    digests contents = contents.eraseDups.map contentHash := by
  induction contents using List.reverseRecOn with
  | nil => rfl
  | append_singleton contents c ih =>
      have ih := ih h.of_append
      by_cases hc : c ∈ contents
      · rw [digests_concat_of_mem (mem_digests.mpr ⟨c, hc, rfl⟩), eraseDups_concat_of_mem hc, ih]
      · have hhash : contentHash c ∉ digests contents := by
          intro hmem
          obtain ⟨c', hc', heq⟩ := mem_digests.mp hmem
          have hsame : c' = c := h c' (List.mem_append_left _ hc') c (by simp) heq
          exact hc (hsame ▸ hc')
        rw [digests_concat_of_notMem hhash, eraseDups_concat_of_notMem hc, ih, List.map_append,
          List.map_singleton]

end Digest

/-- A directory, there or not, in which nothing is kept yet. -/
structure Directory.IsVacant (d : Directory) : Prop where
  notBlocked : d ≠ .blocked
  onlyFiles : Folder.OnlyFiles d.nodes
  noCurrent : d.nodes.get? Folder.currentFile = none
  noIndex : d.nodes.get? Folder.indexFile = none

namespace Folder

open TokenQuota.Directory TokenQuota.Digest

variable {d : Directory} {row : List Bytes} {hashes : List String} {content : Option Bytes}

/-- A directory in which digests are listed, and in which the current content, if there is one, is
found under its digest. -/
structure Holds (d : Directory) (hashes : List String) (content : Option Bytes) : Prop where
  notBlocked : d ≠ .blocked
  onlyFiles : OnlyFiles d.nodes
  isWord : ∀ hash ∈ hashes, Text.IsWord hash
  index : d.nodes.get? indexFile = indexNode hashes
  current : d.nodes.get? currentFile =
    content.map fun c => .file (Bytes.ofString (contentHash c))
  found : ∀ c, content = some c → d.nodes.get? (contentFile (contentHash c)) = some (.file c)

/-- A directory in which a row of contents is kept. -/
structure Keeps (d : Directory) (row : List Bytes) : Prop where
  notBlocked : d ≠ .blocked
  onlyFiles : OnlyFiles d.nodes
  current : d.nodes.get? currentFile =
    row.getLast?.map fun c => .file (Bytes.ofString (contentHash c))
  index : d.nodes.get? indexFile = indexNode (digests row)
  content : ∀ c ∈ row, d.nodes.get? (contentFile (contentHash c)) = some (.file c)

theorem keeps_nil (h : d.IsVacant) : Keeps d [] where
  notBlocked := h.notBlocked
  onlyFiles := h.onlyFiles
  current := h.noCurrent
  index := h.noIndex
  content := by simp

theorem leaves_current?_of_none (hd : d ≠ .blocked) (h : d.nodes.get? currentFile = none) :
    Leaves current? d (.ok none) d :=
  leaves_bind (leaves_readText?_of_none isPlain_currentFile hd h) (leaves_pure none d)

theorem leaves_current?_of_some {c : Bytes}
    (h : d.nodes.get? currentFile = some (.file (Bytes.ofString (contentHash c))))
    (hcontent : d.nodes.get? (contentFile (contentHash c)) = some (.file c)) :
    Leaves current? d (.ok (some c)) d := by
  refine leaves_bind (leaves_readText?_of_some isPlain_currentFile h) ?_
  change Leaves (some <$> read (contentFile (Text.trim (contentHash c)))) d _ d
  rw [(isWord_contentHash c).trim_eq]
  exact leaves_bind (leaves_read_of_some (isPlain_contentFile c) hcontent)
    (leaves_pure (some c) d)

theorem Keeps.holds (h : Keeps d row) : Holds d (digests row) row.getLast? where
  notBlocked := h.notBlocked
  onlyFiles := h.onlyFiles
  isWord _ hmem := isWord_of_mem_digests hmem
  index := h.index
  current := h.current
  found c hlast := h.content c (List.mem_of_getLast? hlast)

theorem leaves_current? (h : Holds d hashes content) : Leaves current? d (.ok content) d := by
  have hcurrent := h.current
  cases hcontent : content with
  | none =>
      rw [hcontent] at hcurrent
      exact leaves_current?_of_none h.notBlocked hcurrent
  | some c =>
      rw [hcontent] at hcurrent
      exact leaves_current?_of_some hcurrent (h.found c hcontent)

theorem leaves_contents
    (h : ∀ c ∈ row, d.nodes.get? (contentFile (contentHash c)) = some (.file c)) :
    Leaves (contents (row.map contentHash)) d (.ok row) d := by
  induction row with
  | nil => exact leaves_pure [] d
  | cons c row ih =>
      obtain ⟨hc, hrow⟩ := List.forall_mem_cons.mp h
      exact leaves_bind (leaves_read_of_some (isPlain_contentFile c) hc)
        (leaves_bind (ih hrow) (leaves_pure (c :: row) d))

theorem leaves_history (h : Keeps d row)
    (hdigests : NoCollision row) : Leaves history d (.ok row.eraseDups) d := by
  have hindex := leaves_index h.notBlocked h.index fun _ hw => isWord_of_mem_digests hw
  refine leaves_bind hindex ?_
  rw [digests_eq_map hdigests]
  refine leaves_contents fun c hc => ?_
  exact h.content c (List.mem_eraseDups.mp hc)

theorem indexNode_concat (hashes : List String) (hash : String) :
    indexNode (hashes ++ [hash]) = some (.file (listing (hashes ++ [hash]))) :=
  if_neg (by simp)

/-- The entries of a directory after one more content was kept in it. -/
def kept (nodes : NameMap Node) (hashes : List String) (c : Bytes) : NameMap Node :=
  let stored := replaced nodes (contentFile (contentHash c)) c
  let indexed :=
    if contentHash c ∈ hashes then stored
    else replaced stored indexFile (listing (hashes ++ [contentHash c]))
  replaced indexed currentFile (Bytes.ofString (contentHash c))

theorem leaves_keep (h : Holds d hashes content) (c : Bytes) :
    Leaves (keep c) d (.ok ()) (.present (kept d.nodes hashes c)) := by
  have hstored : OnlyFiles (replaced d.nodes (contentFile (contentHash c)) c) :=
    h.onlyFiles.replaced _ _
  have hindex : (replaced d.nodes (contentFile (contentHash c)) c).get? indexFile =
      indexNode hashes := by
    rw [get?_replaced_of_ne _ (contentFile_ne_indexFile _).symm (indexFile_ne_draftFile _), h.index]
  refine leaves_bind (leaves_make h.notBlocked) (leaves_bind (leaves_replace h.onlyFiles _ c) ?_)
  refine leaves_bind (leaves_index (by simp) hindex h.isWord) ?_
  by_cases hlisted : contentHash c ∈ hashes
  · simp only [kept, hlisted, List.contains_eq_mem, decide_true, Bool.not_true, if_true]
    exact leaves_replace hstored _ _
  · simp only [kept, hlisted, List.contains_eq_mem, decide_false, Bool.not_false, if_true, if_false]
    exact leaves_bind (leaves_replace hstored _ _) (leaves_replace (hstored.replaced _ _) _ _)

theorem get?_kept_currentFile (nodes : NameMap Node) (hashes : List String) (c : Bytes) :
    (kept nodes hashes c).get? currentFile = some (.file (Bytes.ofString (contentHash c))) :=
  get?_replaced_self _ _ _

theorem get?_kept_indexFile {nodes : NameMap Node} {hashes : List String} (c : Bytes)
    (h : nodes.get? indexFile = indexNode hashes) :
    (kept nodes hashes c).get? indexFile =
      indexNode (if contentHash c ∈ hashes then hashes else hashes ++ [contentHash c]) := by
  rw [kept, get?_replaced_of_ne _ currentFile_ne_indexFile.symm (indexFile_ne_draftFile _)]
  split
  · rw [get?_replaced_of_ne _ (contentFile_ne_indexFile _).symm (indexFile_ne_draftFile _), h]
  · rw [get?_replaced_self, indexNode_concat]

theorem get?_kept_contentFile (nodes : NameMap Node) (hashes : List String) (c : Bytes)
    (hash : String) :
    (kept nodes hashes c).get? (contentFile hash) =
      if hash = contentHash c then some (.file c) else nodes.get? (contentFile hash) := by
  have hstored : (replaced nodes (contentFile (contentHash c)) c).get? (contentFile hash) =
      if hash = contentHash c then some (.file c) else nodes.get? (contentFile hash) := by
    split
    · rename_i heq
      rw [heq, get?_replaced_self]
    · rename_i hne
      exact get?_replaced_of_ne _ (fun heq => hne (contentFile_inj heq))
        (contentFile_ne_draftFile _ _)
  rw [kept, get?_replaced_of_ne _ (contentFile_ne_currentFile _) (contentFile_ne_draftFile _ _),
    ← hstored]
  split
  · rfl
  · exact get?_replaced_of_ne _ (contentFile_ne_indexFile _) (contentFile_ne_draftFile _ _)

theorem onlyFiles_kept {nodes : NameMap Node} (h : OnlyFiles nodes) (hashes : List String)
    (c : Bytes) : OnlyFiles (kept nodes hashes c) := by
  refine OnlyFiles.replaced ?_ _ _
  split
  · exact h.replaced _ _
  · exact (h.replaced _ _).replaced _ _

/-- A content that is kept is the current one from then on. -/
theorem holds_kept (h : Holds d hashes content) (c : Bytes) :
    Holds (.present (kept d.nodes hashes c))
      (if contentHash c ∈ hashes then hashes else hashes ++ [contentHash c]) (some c) where
  notBlocked := by simp
  onlyFiles := onlyFiles_kept h.onlyFiles _ _
  isWord := by
    split
    · exact h.isWord
    · intro hash hmem
      rcases List.mem_append.mp hmem with hmem | hmem
      · exact h.isWord hash hmem
      · rw [List.mem_singleton.mp hmem]
        exact isWord_contentHash c
  index := get?_kept_indexFile c h.index
  current := get?_kept_currentFile _ _ _
  found := by
    rintro _ ⟨⟩
    exact (get?_kept_contentFile _ _ _ _).trans (if_pos rfl)

theorem keeps_kept (h : Keeps d row) {c : Bytes} (hdigests : NoCollision (row ++ [c])) :
    Keeps (.present (kept d.nodes (digests row) c)) (row ++ [c]) where
  notBlocked := (holds_kept h.holds c).notBlocked
  onlyFiles := (holds_kept h.holds c).onlyFiles
  current := by
    rw [List.getLast?_concat]
    exact (holds_kept h.holds c).current
  index := by
    rw [digests_concat]
    exact (holds_kept h.holds c).index
  content := by
    intro c' hc'
    refine (get?_kept_contentFile _ _ _ _).trans ?_
    split
    · rename_i heq
      rw [hdigests c' hc' c (by simp) heq]
    · rename_i hne
      rcases List.mem_append.mp hc' with hc' | hc'
      · exact h.content c' hc'
      · rw [List.mem_singleton] at hc'
        exact absurd (congrArg contentHash hc') hne

end Folder

namespace Shelf

open TokenQuota.Digest

variable {s : Shelf} {row : List Bytes}

/-- A shelf in which a row of contents is kept. -/
structure Keeps (s : Shelf) (row : List Bytes) : Prop where
  current : s.current = row.getLast?.map contentHash
  order : s.order = digests row
  content : ∀ c ∈ row, s.contents.get? (contentHash c) = some c
  known : ∀ hash, s.contents.contains hash = true → hash ∈ digests row

theorem keeps_empty : empty.Keeps [] where
  current := rfl
  order := rfl
  content := by simp
  known := by
    intro hash h
    cases h

theorem current?_keep (s : Shelf) (content : Bytes) :
    (s.keep content).current? = some content := by
  change (s.contents.insert _ content).get? _ = some content
  rw [NameMap.get?_insert, if_pos rfl]

theorem current?_eq (h : s.Keeps row) : s.current? = row.getLast? := by
  rw [current?, h.current]
  cases hlast : row.getLast? with
  | none => rfl
  | some c => exact h.content c (List.mem_of_getLast? hlast)

theorem history_eq (h : s.Keeps row) (hdigests : NoCollision row) :
    s.history = row.eraseDups := by
  have hfind : ∀ l : List Bytes, (∀ c ∈ l, c ∈ row) →
      (l.map contentHash).filterMap s.contents.get? = l := by
    intro l hl
    induction l with
    | nil => rfl
    | cons c l ih =>
        obtain ⟨hc, hrest⟩ := List.forall_mem_cons.mp hl
        rw [List.map_cons, List.filterMap_cons, h.content c hc, ih hrest]
  rw [history, h.order, digests_eq_map hdigests]
  exact hfind _ fun c hc => List.mem_eraseDups.mp hc

theorem contains_eq (h : s.Keeps row) (hash : String) :
    s.contents.contains hash = decide (hash ∈ digests row) := by
  rw [Bool.eq_iff_iff, decide_eq_true_eq]
  constructor
  · exact h.known hash
  · intro hmem
    obtain ⟨c, hc, rfl⟩ := mem_digests.mp hmem
    rw [NameMap.contains, h.content c hc]
    rfl

theorem keeps_keep (h : s.Keeps row) {c : Bytes} (hdigests : NoCollision (row ++ [c])) :
    (s.keep c).Keeps (row ++ [c]) where
  current := by
    rw [List.getLast?_concat]
    rfl
  order := by
    rw [digests_concat, ← h.order]
    simp only [keep, contains_eq h, decide_eq_true_eq, h.order]
  content := by
    intro c' hc'
    refine (NameMap.get?_insert _ _ _ _).trans ?_
    split
    · rename_i heq
      rw [hdigests c' hc' c (by simp) heq]
    · rename_i hne
      rcases List.mem_append.mp hc' with hc' | hc'
      · exact h.content c' hc'
      · rw [List.mem_singleton] at hc'
        exact absurd (congrArg contentHash hc') hne
  known := by
    intro hash hcontains
    rw [NameMap.contains, keep, NameMap.get?_insert] at hcontains
    rw [mem_digests]
    split at hcontains
    · rename_i heq
      exact ⟨c, by simp, heq.symm⟩
    · obtain ⟨c', hc', heq⟩ := mem_digests.mp (h.known hash hcontains)
      exact ⟨c', List.mem_append_left _ hc', heq⟩

end Shelf

namespace Archive

open TokenQuota.Digest

variable {a : Archive} {row : List Bytes}

/-- An archive in which a row of contents is kept, in a folder whose accesses do not fail if it is
not in memory, and which nobody is writing to. -/
structure Keeps (a : Archive) (row : List Bytes) : Prop where
  unlocked : a.locked = false
  shelf : ∀ s, a.storage = .shelf s → s.Keeps row
  folder : ∀ f, a.storage = .folder f → f.Works ∧ Folder.Keeps f.directory row

theorem keeps_of_shelf {s : Shelf} (h : s.Keeps row) (pending : Bool) :
    Keeps ⟨.shelf s, pending, false⟩ row := by
  refine ⟨rfl, ?_, ?_⟩
  · rintro s' ⟨⟩
    exact h
  · rintro f ⟨⟩

theorem keeps_of_folder {f : Folder} (hworks : f.Works) (h : Folder.Keeps f.directory row)
    (pending : Bool) : Keeps ⟨.folder f, pending, false⟩ row := by
  refine ⟨rfl, ?_, ?_⟩
  · rintro s ⟨⟩
  · rintro f' ⟨⟩
    exact ⟨hworks, h⟩

theorem fits_folder {f : Folder} (h : a.storage = .folder f) : folder.Fits a := by
  obtain ⟨storage, pending, locked⟩ := a
  subst h
  exact ⟨rfl, fun _ => rfl, fun _ _ => rfl⟩

/-- What an activity leaves in a directory, it leaves in that of an archive in a folder. -/
theorem runsTo_onFolder {α : Type} {x : Folder.Access α} {f : Folder} {r : Except FileError α}
    {d' : Directory} (hstorage : a.storage = .folder f) (hworks : f.Works)
    (h : Folder.Leaves x f.directory r d') :
    ∃ f' : Folder, (onFolder x).run.RunsTo a (r.mapError ofFileError)
      { a with storage := .folder f' } ∧ f'.Works ∧ f'.directory = d' := by
  obtain ⟨storage, pending, locked⟩ := a
  obtain rfl : storage = .folder f := hstorage
  obtain ⟨f', hrun, hafter⟩ := h f hworks rfl
  have hget : folder.get ⟨.folder f, pending, locked⟩ = f := rfl
  have hpart := hrun.onPart (fits_folder rfl) hget
  exact ⟨f', hpart.andThen (.done _ _), hafter⟩

/-- Nobody is writing to an archive, and something is known of its shelf, or of the directory of
its folder, whose accesses do not fail. -/
structure Has (S : Shelf → Prop) (D : Directory → Prop) (a : Archive) : Prop where
  unlocked : a.locked = false
  shelf : ∀ s, a.storage = .shelf s → S s
  folder : ∀ f, a.storage = .folder f → f.Works ∧ D f.directory

variable {S S' : Shelf → Prop} {D D' : Directory → Prop}

theorem has_shelf {s : Shelf} (hs : S s) (pending : Bool) : Has S D ⟨.shelf s, pending, false⟩ :=
  ⟨rfl, by rintro s' ⟨⟩; exact hs, by rintro f ⟨⟩⟩

theorem has_folder {f : Folder} (hworks : f.Works) (hd : D f.directory) (pending : Bool) :
    Has S D ⟨.folder f, pending, false⟩ :=
  ⟨rfl, by rintro s ⟨⟩, by rintro f' ⟨⟩; exact ⟨hworks, hd⟩⟩

theorem keeps_iff : a.Keeps row ↔ a.Has (Shelf.Keeps · row) (Folder.Keeps · row) :=
  ⟨fun h => ⟨h.unlocked, h.shelf, h.folder⟩, fun h => ⟨h.unlocked, h.shelf, h.folder⟩⟩

/-- What is known after a content was kept on a shelf, or in a folder, is known of the archive. -/
theorem Has.runsTo_keep {c : Bytes} (h : a.Has S D) (hS : ∀ s, S s → S' (s.keep c))
    (hD : ∀ d, D d → ∃ d', Folder.Leaves (Folder.keep c) d (.ok ()) d' ∧ D' d') :
    ∃ a', (keep c).run.RunsTo a (.ok ()) a' ∧ a'.Has S' D' := by
  obtain ⟨storage, pending, locked⟩ := a
  obtain rfl : locked = false := h.unlocked
  cases storage with
  | shelf s =>
      refine ⟨⟨.shelf (s.keep c), true, false⟩, ?_, has_shelf (hS s (h.shelf s rfl)) true⟩
      exact Action.runsTo_bind (Action.runsTo_ofTask (Task.runsTo_atOnce (keepOnShelf c) _))
        (.done _ _)
  | folder f =>
      obtain ⟨hworks, hd⟩ := h.folder f rfl
      obtain ⟨d', hkeep, hd'⟩ := hD _ hd
      obtain ⟨f', hrun, hworks', rfl⟩ := runsTo_onFolder (a := ⟨.folder f, pending, true⟩) rfl
        hworks hkeep
      refine ⟨⟨.folder f', true, false⟩, ?_, has_folder hworks' hd' true⟩
      refine Action.runsTo_bind
        (Action.runsTo_ofTask (Task.runsTo_atOnce (keepOnShelf c) _)) ?_
      exact Action.runsTo_bind (hrun.holding rfl) (Action.runsTo_modify signal _)

/-- What is only read stays as it is. -/
theorem Has.runsTo_read {α : Type} {g : Shelf → α} {x : Folder.Access α}
    {R : Except QuotaError α → Prop} (h : a.Has S D) (hS : ∀ s, S s → R (.ok (g s)))
    (hD : ∀ d, D d → ∃ r, Folder.Leaves x d r d ∧ R (r.mapError ofFileError)) :
    ∃ r a', (do
        match ← Action.read shelf? with
        | some s => return g s
        | none => onFolder x : Keeper α).run.RunsTo a r a' ∧ a'.Has S D ∧ R r := by
  obtain ⟨storage, pending, locked⟩ := a
  obtain rfl : locked = false := h.unlocked
  cases storage with
  | shelf s =>
      refine ⟨.ok (g s), _, Action.runsTo_bind (Action.runsTo_read shelf? _) (.done _ _), h, ?_⟩
      exact hS s (h.shelf s rfl)
  | folder f =>
      obtain ⟨hworks, hd⟩ := h.folder f rfl
      obtain ⟨r, hleaves, hr⟩ := hD _ hd
      obtain ⟨f', hrun, hworks', hsame⟩ := runsTo_onFolder (a := ⟨.folder f, pending, false⟩) rfl
        hworks hleaves
      refine ⟨_, _, Action.runsTo_bind (Action.runsTo_read shelf? _) hrun, ?_, hr⟩
      exact has_folder hworks' (hsame ▸ hd) pending

/-- As above, where the result is known. -/
theorem Has.runsTo_read_ok {α : Type} {g : Shelf → α} {x : Folder.Access α} {r : α}
    (h : a.Has S D) (hS : ∀ s, S s → g s = r) (hD : ∀ d, D d → Folder.Leaves x d (.ok r) d) :
    ∃ a', (do
        match ← Action.read shelf? with
        | some s => return g s
        | none => onFolder x : Keeper α).run.RunsTo a (.ok r) a' ∧ a'.Has S D := by
  obtain ⟨_, a', hrun, hafter, rfl⟩ := h.runsTo_read (R := fun r' => r' = .ok r)
    (fun s hs => congrArg Except.ok (hS s hs)) fun d hd => ⟨_, hD d hd, rfl⟩
  exact ⟨a', hrun, hafter⟩

theorem runsTo_keep (h : a.Keeps row) {c : Bytes} (hdigests : NoCollision (row ++ [c])) :
    ∃ a', (keep c).run.RunsTo a (.ok ()) a' ∧ a'.Keeps (row ++ [c]) := by
  simp only [keeps_iff] at h ⊢
  refine h.runsTo_keep (fun s hs => Shelf.keeps_keep hs hdigests) fun d hd => ?_
  exact ⟨_, Folder.leaves_keep hd.holds c, Folder.keeps_kept hd hdigests⟩

theorem runsTo_current? (h : a.Keeps row) :
    ∃ a', current?.run.RunsTo a (.ok row.getLast?) a' ∧ a'.Keeps row := by
  simp only [keeps_iff] at h ⊢
  exact h.runsTo_read_ok (fun s hs => Shelf.current?_eq hs) fun d hd =>
    Folder.leaves_current? hd.holds

theorem runsTo_history (h : a.Keeps row) (hdigests : NoCollision row) :
    ∃ a', history.run.RunsTo a (.ok row.eraseDups) a' ∧ a'.Keeps row := by
  simp only [keeps_iff] at h ⊢
  exact h.runsTo_read_ok (fun s hs => Shelf.history_eq hs hdigests) fun d hd =>
    Folder.leaves_history hd hdigests

/-- What is asked of an archive. -/
inductive Call
  | keep (content : Bytes)
  | current
  | history
  /-- Opens what is in the folder again. -/
  | reopen
deriving DecidableEq

inductive Answer
  | done
  | current (content : Option Bytes)
  | history (contents : List Bytes)
deriving DecidableEq

/-- The contents that a call asks to keep: one or none. -/
def Call.kept : Call → List Bytes
  | .keep content => [content]
  | .current => []
  | .history => []
  | .reopen => []

/-- The answer to a call after a row of contents was kept. -/
def Call.answer (row : List Bytes) : Call → Answer
  | .keep _ => .done
  | .current => .current row.getLast?
  | .history => .history row.eraseDups
  | .reopen => .done

/-- Another archive on the same folder. What is in memory stays as it is. -/
def reopened (a : Archive) : Archive :=
  match a.storage with
  | .shelf _ => a
  | .folder f => ofStorage (.folder f)

def perform : Call → Keeper Answer
  | .keep content => do
    keep content
    return .done
  | .current => return .current (← current?)
  | .history => return .history (← history)
  | .reopen => do
    Action.modify reopened
    return .done

/-- The answers to calls, each made after the one before it came to its end. -/
def answers (elapse : Nat → Archive → Archive) :
    List Call → Archive → List (Option (Except QuotaError Answer))
  | [], _ => []
  | call :: rest, a =>
    let (answer, after) := (perform call).run.run elapse a
    answer :: answers elapse rest after

/-- The answers to calls after a row of contents was kept. -/
def expected : List Bytes → List Call → List Answer
  | _, [] => []
  | row, call :: rest => call.answer row :: expected (row ++ call.kept) rest

theorem keeps_reopened (h : a.Keeps row) : a.reopened.Keeps row := by
  obtain ⟨storage, pending, locked⟩ := a
  cases storage with
  | shelf s => exact h
  | folder f => exact keeps_of_folder (h.folder f rfl).1 (h.folder f rfl).2 false

theorem runsTo_perform (h : a.Keeps row) (call : Call)
    (hdigests : NoCollision (row ++ call.kept)) :
    ∃ a', (perform call).run.RunsTo a (.ok (call.answer row)) a' ∧
      a'.Keeps (row ++ call.kept) := by
  cases call with
  | keep c =>
      obtain ⟨a', hrun, hkeeps⟩ := runsTo_keep h hdigests
      exact ⟨a', Action.runsTo_bind hrun (.done _ _), hkeeps⟩
  | current =>
      obtain ⟨a', hrun, hkeeps⟩ := runsTo_current? h
      refine ⟨a', Action.runsTo_bind hrun (.done _ _), ?_⟩
      rwa [Call.kept, List.append_nil]
  | history =>
      obtain ⟨a', hrun, hkeeps⟩ := runsTo_history h hdigests.of_append
      refine ⟨a', Action.runsTo_bind hrun (.done _ _), ?_⟩
      rwa [Call.kept, List.append_nil]
  | reopen =>
      refine ⟨a.reopened, Action.runsTo_bind (Action.runsTo_modify reopened a) (.done _ _), ?_⟩
      rw [Call.kept, List.append_nil]
      exact keeps_reopened h

theorem answers_eq (elapse : Nat → Archive → Archive) (calls : List Call) (h : a.Keeps row)
    (hdigests : NoCollision (row ++ calls.flatMap Call.kept)) :
    answers elapse calls a = (expected row calls).map fun answer => some (.ok answer) := by
  induction calls generalizing a row with
  | nil => rfl
  | cons call rest ih =>
      rw [List.flatMap_cons, ← List.append_assoc] at hdigests
      obtain ⟨a', hrun, hkeeps⟩ := runsTo_perform h call hdigests.of_append
      rw [answers, hrun.run elapse, expected, List.map_cons, ← ih hkeeps hdigests]

/-- An archive in memory and one in a folder where nothing is kept yet give the same answers to
all calls: the current content is the one that was kept last, and the history has every content
once, in the order in which they first came. The folder may be opened again between any two
calls. -/
theorem storages_agree (elapse : Nat → Archive → Archive) (calls : List Call) (f : Folder)
    (hworks : f.Works) (hvacant : f.directory.IsVacant)
    (hdigests : NoCollision (calls.flatMap Call.kept)) :
    answers elapse calls (ofStorage (.shelf .empty)) =
        (expected [] calls).map (fun answer => some (.ok answer)) ∧
      answers elapse calls (ofStorage (.folder f)) =
        (expected [] calls).map (fun answer => some (.ok answer)) :=
  ⟨answers_eq elapse calls (keeps_of_shelf Shelf.keeps_empty false) hdigests,
    answers_eq elapse calls (keeps_of_folder hworks (Folder.keeps_nil hvacant) false) hdigests⟩

theorem storages_agree_repeated :
    let calls : List Call := [.current, .history, .keep [1], .keep [2], .reopen, .keep [1],
      .current, .history]
    Folder.absent.Works ∧ Folder.absent.directory.IsVacant ∧
      NoCollision (calls.flatMap Call.kept) ∧
      answers (fun _ a => a) calls (ofStorage (.folder .absent)) =
        [.current none, .history [], .done, .done, .done, .done, .current (some [1]),
          .history [[1], [2]]].map (fun answer => some (.ok answer)) := by
  intro calls
  have hworks : Folder.absent.Works := fun _ => rfl
  have hvacant : Folder.absent.directory.IsVacant :=
    ⟨nofun, fun _ => nofun, rfl, rfl⟩
  have hdigests : NoCollision (calls.flatMap Call.kept) := by decide +kernel
  refine ⟨hworks, hvacant, hdigests, ?_⟩
  exact (storages_agree (fun _ a => a) calls .absent hworks hvacant hdigests).2

end Archive

end TokenQuota
