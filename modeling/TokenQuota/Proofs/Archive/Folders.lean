import TokenQuota.Proofs.Archive.Names
import TokenQuota.Proofs.Task.Alone

/-!
What activities on a folder leave in its directory when no access fails. A file is replaced by way
of its draft, so that nothing else changes, and an index that was written is read back.
-/

namespace TokenQuota

namespace Folder

open TokenQuota.Directory TokenQuota.Task

/-- No access fails. -/
def Works (f : Folder) : Prop := ∀ i, f.outage.hits i = false

/-- Alone, and while no access fails, an activity on a folder takes its directory to another one,
with a result. -/
def Leaves {α : Type} (x : Access α) (d : Directory) (r : Except FileError α) (d' : Directory) :
    Prop :=
  ∀ f : Folder, f.Works → f.directory = d →
    ∃ f' : Folder, x.run.RunsTo f r f' ∧ f'.Works ∧ f'.directory = d'

variable {α β : Type} {d d' d₁ : Directory}

theorem leaves_pure (a : α) (d : Directory) : Leaves (pure a) d (.ok a) d := by
  intro f hworks hd
  exact ⟨f, .done _ _, hworks, hd⟩

theorem leaves_bind {x : Access α} {g : α → Access β} {a : α} {r : Except FileError β}
    (hx : Leaves x d (.ok a) d₁) (hg : Leaves (g a) d₁ r d') : Leaves (x >>= g) d r d' := by
  intro f hworks hd
  obtain ⟨f₁, hrun₁, hworks₁, hd₁⟩ := hx f hworks hd
  obtain ⟨f', hrun, hworks', hd'⟩ := hg f₁ hworks₁ hd₁
  exact ⟨f', Action.runsTo_bind hrun₁ hrun, hworks', hd'⟩

theorem leaves_bind_error {x : Access α} {g : α → Access β} {e : FileError}
    (hx : Leaves x d (.error e) d') : Leaves (x >>= g) d (.error e) d' := by
  intro f hworks hd
  obtain ⟨f', hrun, hafter⟩ := hx f hworks hd
  exact ⟨f', hrun.andThen (.done _ _), hafter⟩

theorem leaves_outcome {x : Access α} {r : Except FileError α} (hx : Leaves x d r d') :
    Leaves x.outcome d (.ok r) d' := by
  intro f hworks hd
  obtain ⟨f', hrun, hafter⟩ := hx f hworks hd
  exact ⟨f', Action.runsTo_outcome hrun, hafter⟩

theorem leaves_access (torn : Folder → Directory) {g : Directory → Except FileError (α × Directory)}
    {a : α} (h : g d = .ok (a, d')) : Leaves (access torn g) d (.ok a) d' := by
  intro f hworks hd
  have hrun : (access torn g).run.RunsTo f _ _ := Action.runsTo_atOnce _ f
  simp only [hworks f.outage.calls, Outage.isHit, hd, h] at hrun
  exact ⟨_, hrun, hworks, rfl⟩

theorem leaves_access_error (torn : Folder → Directory)
    {g : Directory → Except FileError (α × Directory)} {e : FileError} (h : g d = .error e) :
    Leaves (access torn g) d (.error e) d := by
  intro f hworks hd
  have hrun : (access torn g).run.RunsTo f _ _ := Action.runsTo_atOnce _ f
  simp only [hworks f.outage.calls, Outage.isHit, hd, h] at hrun
  exact ⟨_, hrun, hworks, rfl⟩

/-- The entries after a file was replaced by way of its draft. -/
def replaced (nodes : NameMap Node) (name : String) (content : Bytes) : NameMap Node :=
  ((nodes.insert (draftFile name) (.file content)).erase (draftFile name)).insert name
    (.file content)

theorem get?_replaced_self (nodes : NameMap Node) (name : String) (content : Bytes) :
    (replaced nodes name content).get? name = some (.file content) := by
  rw [replaced, NameMap.get?_insert, if_pos rfl]

theorem get?_replaced_of_ne {nodes : NameMap Node} {name other : String} (content : Bytes)
    (hname : other ≠ name) (hdraft : other ≠ draftFile name) :
    (replaced nodes name content).get? other = nodes.get? other := by
  rw [replaced, NameMap.get?_insert, if_neg hname, NameMap.get?_erase, if_neg hdraft,
    NameMap.get?_insert, if_neg hdraft]

/-- There are files only. -/
def OnlyFiles (nodes : NameMap Node) : Prop := ∀ name, nodes.get? name ≠ some .directory

theorem OnlyFiles.insert {nodes : NameMap Node} (h : OnlyFiles nodes) (name : String)
    (content : Bytes) : OnlyFiles (nodes.insert name (.file content)) := by
  intro other
  rw [NameMap.get?_insert]
  split
  · simp
  · exact h other

theorem OnlyFiles.erase {nodes : NameMap Node} (h : OnlyFiles nodes) (name : String) :
    OnlyFiles (nodes.erase name) := by
  intro other
  rw [NameMap.get?_erase]
  split
  · simp
  · exact h other

theorem OnlyFiles.replaced {nodes : NameMap Node} (h : OnlyFiles nodes) (name : String)
    (content : Bytes) : OnlyFiles (replaced nodes name content) :=
  ((h.insert _ _).erase _).insert _ _

theorem leaves_write {nodes : NameMap Node} {name : String}
    (h : nodes.get? name ≠ some .directory) (content : Bytes) :
    Leaves (write name content) (.present nodes) (.ok ())
      (.present (nodes.insert name (.file content))) := by
  refine leaves_access _ ?_
  rw [Directory.write, if_neg h]
  rfl

theorem leaves_rename {nodes : NameMap Node} {source target : String} {moved : Node}
    (hsource : nodes.get? source = some moved) (htarget : nodes.get? target ≠ some .directory) :
    Leaves (rename source target) (.present nodes) (.ok ())
      (.present ((nodes.erase source).insert target moved)) := by
  refine leaves_access _ ?_
  simp only [Directory.rename, hsource, if_neg htarget]
  rfl

theorem leaves_replace {nodes : NameMap Node} (h : OnlyFiles nodes) (name : String)
    (content : Bytes) :
    Leaves (replace name content) (.present nodes) (.ok ())
      (.present (replaced nodes name content)) := by
  refine leaves_bind (leaves_write (h _) content) (leaves_rename ?_ (h.insert _ _ name))
  rw [NameMap.get?_insert, if_pos rfl]

theorem leaves_make (hd : d ≠ .blocked) : Leaves make d (.ok ()) (.present d.nodes) := by
  refine leaves_access _ ?_
  cases d with
  | absent => rfl
  | blocked => exact absurd rfl hd
  | present nodes => rfl

theorem leaves_read_of_some {name : String} {content : Bytes} (hname : IsPlain name)
    (h : d.nodes.get? name = some (.file content)) : Leaves (read name) d (.ok content) d := by
  have hd : d ≠ .blocked := by
    rintro rfl
    cases h
  refine leaves_access _ ?_
  rw [Directory.read, node_of_isPlain hname hd, h]
  rfl

theorem leaves_readText?_of_some {name text : String} (hname : IsPlain name)
    (h : d.nodes.get? name = some (.file (Bytes.ofString text))) :
    Leaves (readText? name) d (.ok (some text)) d := by
  refine leaves_bind (leaves_outcome (leaves_read_of_some hname h)) ?_
  simp only [Bytes.text?_ofString]
  exact leaves_pure _ d

theorem leaves_read_of_none {name : String} (hname : IsPlain name) (hd : d ≠ .blocked)
    (h : d.nodes.get? name = none) : Leaves (read name) d (.error .noFile) d := by
  refine leaves_access_error _ ?_
  rw [Directory.read, node_of_isPlain hname hd, h]
  rfl

theorem leaves_readText?_of_none {name : String} (hname : IsPlain name) (hd : d ≠ .blocked)
    (h : d.nodes.get? name = none) : Leaves (readText? name) d (.ok none) d :=
  leaves_bind (leaves_outcome (leaves_read_of_none hname hd h)) (leaves_pure none d)

/-- What is listed reads back, word for word. -/
theorem listed_listing {words : List String} (h : ∀ w ∈ words, Text.IsWord w) (hne : words ≠ []) :
    listed ("\n".intercalate words ++ "\n") = words := by
  have htrim : words.map Text.trim = words := by
    refine (List.map_congr_left fun w hw => ?_).trans (List.map_id words)
    exact (h w hw).trim_eq
  rw [listed, Text.lines_listing h hne, htrim, List.filter_eq_self]
  intro w hw
  simpa using (h w hw).nonempty

/-- The entry under which digests are listed, if there are any. -/
def indexNode (hashes : List String) : Option Node :=
  if hashes = [] then none else some (.file (listing hashes))

theorem leaves_index {hashes : List String} (hd : d ≠ .blocked)
    (h : d.nodes.get? indexFile = indexNode hashes) (hwords : ∀ w ∈ hashes, Text.IsWord w) :
    Leaves index d (.ok hashes) d := by
  by_cases hne : hashes = []
  · subst hne
    exact leaves_bind (leaves_readText?_of_none isPlain_indexFile hd h) (leaves_pure [] d)
  · rw [indexNode, if_neg hne] at h
    refine leaves_bind (leaves_readText?_of_some isPlain_indexFile h) ?_
    change Leaves (pure (listed ("\n".intercalate hashes ++ "\n"))) d _ d
    rw [listed_listing hwords hne]
    exact leaves_pure hashes d

end Folder

end TokenQuota
