import TokenQuota.Proofs.Archive.Contents
import TokenQuota.Proofs.Server.Requests

/-!
A server that keeps its configurations in memory: reading what is kept and keeping something are
one step each, and neither can fail.
-/

namespace TokenQuota

namespace Site

open TokenQuota.Task (Ends)

/-- The content that is kept in memory, if there is one. -/
def kept (s : Site) : Option Bytes := s.archive.shelf?.bind Shelf.current?

/-- Configurations are kept in memory. -/
def IsShelved (s : Site) : Prop := s.archive.shelf?.isSome = true

/-- A content is kept on a shelf, and the change is signalled. -/
def putOnShelf (content : Bytes) (s : Site) : Site :=
  { s with archive := (Archive.keepOnShelf content s.archive).2 }

/-- Nobody else keeps configurations, whatever happens to the store and the clock. -/
structure Beyond (s s' : Site) : Prop where
  server : s'.server = s.server
  archive : s'.archive = s.archive

/-- What is kept, the initial configuration and the lock are the same. -/
structure LeavesKept (s s' : Site) : Prop where
  initial : s'.server.initial = s.server.initial
  locked : s'.server.locked = s.server.locked
  storage : s'.archive.storage = s.archive.storage

variable {s s' : Site}

theorem exists_shelf (h : s.IsShelved) : ∃ shelf, s.archive.storage = .shelf shelf := by
  unfold IsShelved Archive.shelf? at h
  split at h
  · rename_i shelf heq
    exact ⟨shelf, heq⟩
  · cases h

theorem Undisturbed.of_beyond (h : s.Beyond s') : s.Undisturbed s' := by
  refine ⟨?_, ?_, h.archive⟩
  · rw [h.server]
    exact .refl _
  · rw [h.server]

theorem kept_congr (h : s'.archive.storage = s.archive.storage) : s'.kept = s.kept := by
  unfold kept Archive.shelf?
  rw [h]

theorem isShelved_congr (h : s'.archive.storage = s.archive.storage) (hs : s.IsShelved) :
    s'.IsShelved := by
  unfold IsShelved Archive.shelf?
  rw [h]
  exact hs

theorem putOnShelf_eq (h : s.IsShelved) (content : Bytes) : ∃ shelf,
    s.archive.storage = .shelf shelf ∧ Archive.keepOnShelf content s.archive =
      (true, { s.archive with storage := .shelf (shelf.keep content), pending := true }) := by
  obtain ⟨shelf, hshelf⟩ := exists_shelf h
  refine ⟨shelf, hshelf, ?_⟩
  unfold Archive.keepOnShelf
  rw [hshelf]

theorem kept_putOnShelf (h : s.IsShelved) (content : Bytes) :
    (s.putOnShelf content).kept = some content := by
  obtain ⟨shelf, -, hput⟩ := putOnShelf_eq h content
  rw [putOnShelf, hput]
  exact shelf.current?_keep content

theorem pending_putOnShelf (h : s.IsShelved) (content : Bytes) :
    (s.putOnShelf content).archive.pending = true := by
  obtain ⟨shelf, -, hput⟩ := putOnShelf_eq h content
  rw [putOnShelf, hput]

theorem isShelved_putOnShelf (h : s.IsShelved) (content : Bytes) :
    (s.putOnShelf content).IsShelved := by
  obtain ⟨shelf, -, hput⟩ := putOnShelf_eq h content
  rw [putOnShelf, hput]
  rfl

section Rules

variable {μ : Type} {P : Protocol Request μ Site} {i : Request} {m : μ} {J : Site → Prop}

/-- An activity of the archive that looks at the shelf, if there is one. -/
theorem does_onShelf {α : Type} {S : α → Site → Prop} (f : Shelf → α) (g : Archive.Keeper α)
    (hshelved : ∀ s, P.inv s → s.IsShelved) (hJ : P.Stable m J) (hS : ∀ a, P.Stable m (S a))
    (h : ∀ s shelf, P.inv s → P.given s → J s → s.archive.shelf? = some shelf →
      P.move i m m s s ∧ S (f shelf) s) :
    P.Does i m J
      (onArchive (do
        match ← Action.read Archive.shelf? with
        | some s => return f s
        | none => g))
      (Protocol.succeeds S) := by
  intro s hs s' hinv hgiven hrely _
  have hsome := hshelved s' hinv
  unfold IsShelved at hsome
  cases hshelf : s'.archive.shelf? with
  | none =>
      rw [hshelf] at hsome
      cases hsome
  | some shelf =>
      obtain ⟨hmove, hafter⟩ := h s' shelf hinv hgiven (hJ s s' hrely hs) hshelf
      refine ⟨m, hmove, ?_⟩
      have hnext : P.Safe i (fun m' r s => m' = m ∧ Protocol.succeeds S r s)
          (Task.onPart archivePart (match s'.archive.shelf? with
            | some s => pure (f s)
            | none => g : Archive.Keeper α).run) m s' := by
        rw [hshelf]
        intro s'' _ hrely'
        exact ⟨rfl, hS _ s' s'' hrely' hafter⟩
      exact hnext

theorem does_readArchive {S : Option Bytes → Site → Prop}
    (hshelved : ∀ s, P.inv s → s.IsShelved) (hJ : P.Stable m J) (hS : ∀ a, P.Stable m (S a))
    (hdelay : ∀ s s', J s → P.inv s → P.given s → s.Undisturbed s' →
      P.move i m m s s' ∧ P.rely m s s')
    (h : ∀ s, P.inv s → P.given s → J s → P.move i m m s s ∧ S s.kept s) :
    P.Does i m J readArchive (Protocol.succeeds S) := by
  refine .bind (Protocol.does_ofTask_of_changes undisturbed_delay hJ hdelay) (fun _ => ?_) ?_
  · refine does_onShelf Shelf.current? _ hshelved hJ hS ?_
    intro s shelf hinv hgiven hs hshelf
    have hkept : s.kept = shelf.current? := by
      rw [kept, hshelf]
      rfl
    rw [← hkept]
    exact h s hinv hgiven hs
  · intro e s _ hs
    exact absurd hs id

theorem does_history (hshelved : ∀ s, P.inv s → s.IsShelved) (hJ : P.Stable m J)
    (hmove : ∀ s, P.inv s → P.given s → J s → P.move i m m s s) :
    P.Does i m J history fun _ s => J s := by
  refine .bind (does_onShelf (S := fun _ => J) Shelf.history _ hshelved hJ (fun _ => hJ) ?_)
    (fun contents => ?_) ?_
  · intro s shelf hinv hgiven hs _
    exact ⟨hmove s hinv hgiven hs, hs⟩
  · exact (Protocol.does_ofExcept hJ _).mono (fun _ hs => hs) fun _ _ _ hr => hr.2
  · intro e s _ hs
    exact absurd hs id

theorem safe_keep {Q : μ → Except QuotaError Unit → Site → Prop} {content : Bytes} {s : Site}
    (hshelved : ∀ s, P.inv s → s.IsShelved)
    (h : ∀ s', P.inv s' → P.given s' → P.rely m s s' →
      ∃ m', P.move i m m' s' (s'.putOnShelf content) ∧
        ∀ s'', P.inv s'' → P.rely m' (s'.putOnShelf content) s'' → Q m' (.ok ()) s'') :
    P.Safe i Q (onArchive (Archive.keep content)).run m s := by
  intro s' hinv hgiven hrely _
  obtain ⟨m', hmove, hafter⟩ := h s' hinv hgiven hrely
  obtain ⟨shelf, -, hput⟩ := putOnShelf_eq (hshelved s' hinv) content
  refine ⟨m', hmove, ?_⟩
  have hnext : P.Safe i Q
      (Task.onPart archivePart
        (if !(Archive.keepOnShelf content s'.archive).1 then do
            Action.holding Archive.lock (Archive.onFolder (Folder.keep content))
            Action.modify Archive.signal
          else pure () : Archive.Keeper Unit).run) m' (s'.putOnShelf content) := by
    rw [hput]
    exact hafter
  exact hnext

end Rules

/-- Whoever reads what is kept in memory finds what is kept at some step of its own. -/
theorem ends_readArchive {l : List (Site × Site)} {r : Except QuotaError (Option Bytes)}
    (h : Ends readArchive.run l r) (hshelved : ∀ c ∈ l, c.1.IsShelved) :
    ∃ c ∈ l, r = .ok c.1.kept := by
  rcases Action.ends_bind h with ⟨u, l₁, l₂, rfl, -, hread⟩ | ⟨e, -, hdelay⟩
  · obtain ⟨parts, rfl, hcurrent⟩ := Task.ends_onPart hread
    rcases Action.ends_bind hcurrent with ⟨o, p₁, p₂, hparts, hshelf, hrest⟩ | ⟨e, -, hshelf⟩
    · obtain ⟨shelf, heq, hlook⟩ := Action.ends_ofTask hshelf
      cases heq
      obtain ⟨a, rfl, rfl⟩ := Task.ends_read hlook
      -- The step that looks at the shelf is one of the caller's.
      cases parts with
      | nil => cases hparts
      | cons part parts =>
          rw [List.map_cons, List.singleton_append, List.cons.injEq, Prod.mk.injEq] at hparts
          obtain ⟨⟨rfl, -⟩, -⟩ := hparts
          have hmem : (part.1, archivePart.set part.2 part.1) ∈
              l₁ ++ (part :: parts).map fun c => (c.1, archivePart.set c.2 c.1) := by
            simp
          refine ⟨_, hmem, ?_⟩
          obtain ⟨shelf, hstorage⟩ := exists_shelf (hshelved _ hmem)
          have hshelf : part.1.archive.shelf? = some shelf := by
            rw [Archive.shelf?, hstorage]
          have hlast : Ends (match part.1.archive.shelf? with
              | some s => pure s.current?
              | none => Archive.onFolder Folder.current? : Archive.Keeper _).run p₂ r := hrest
          rw [hshelf] at hlast
          obtain ⟨-, rfl⟩ := Task.ends_done hlast
          rw [kept, hshelf]
          rfl
    · obtain ⟨shelf, heq, -⟩ := Action.ends_ofTask hshelf
      cases heq
  · obtain ⟨v, heq, -⟩ := Action.ends_ofTask hdelay
    cases heq

end Site

end TokenQuota
