import Mathlib.Logic.Relation
import TokenQuota.Proofs.Server.Editing
import TokenQuota.Proofs.Server.Solo

/-!
Changes that are signalled again while the same content is kept. A content that is applied as it is
stays active, with its buckets. One that is applied under another stamp is not recognized again.
-/

namespace TokenQuota

namespace Site

open TokenQuota.Protocol (either solo succeeds)

/-- What is seen of a server: its active configuration, a view of the snapshot that this is part of,
what came of the latest attempt, and what the archive has. -/
structure Sight (α : Type) where
  active : ServiceConfig
  view : α
  outcome : Outcome
  source : Shelf ⊕ Directory

def sight {α : Type} (view : Snapshot → α) (s : Site) : Sight α :=
  ⟨s.activeConfig, view s.server.active, s.server.outcome, s.archive.source⟩

/-- What a round leaves of what was seen, if the content that is kept writes some well-formed
configuration. -/
inductive Handled {α : Type} (c : ServiceConfig) (x : Sight α) : Sight α → Prop
  | failed (e : QuotaError) : Handled c x { x with outcome := .failed e }
  | active (h : c = x.active) : Handled c x { x with outcome := .applied c.version }
  | applied (wallClock : UInt64) (view : α) (h : c ≠ x.active) :
      Handled c x ⟨restamp wallClock x.active c, view,
        .applied (restamp wallClock x.active c).version, x.source⟩

variable {α : Type} {view : Snapshot → α} {x : Sight α} {s s' : Site} {i : Request} {b : Bytes}
  {c : ServiceConfig}

theorem stable_sight (view : Snapshot → α) (F : Sight α → Prop) :
    (solo Request (sight view)).Stable () fun s => F (sight view s) := by
  intro s s' (hsame : sight view s' = sight view s) hs
  rwa [hsame]

theorem does_readArchive_sight (x : Sight α) :
    (solo Request (sight view)).Does i () (fun s => sight view s = x) readArchive
      fun r s => (∀ content, r = .ok content →
        content = x.source.elim Shelf.current? Folder.current) ∧ sight view s = x := by
  -- What is seen is taken apart into the source, which is read, and all the rest.
  have hx : ∀ s, sight view s = x ↔ { sight view s with source := x.source } = x ∧
      s.archive.source = x.source := by
    intro s
    constructor
    · rintro rfl
      exact ⟨rfl, rfl⟩
    · rintro ⟨hrest, hsource⟩
      rw [← hrest, ← hsource]
      rfl
  have hpart : ∀ s s', sight view s' = sight view s → s'.archive.source = s.archive.source :=
    fun _ _ hsame => congrArg Sight.source hsame
  refine (does_readArchive_of_current? (J := fun s => { sight view s with source := x.source } = x)
    (F := fun a => a.source = x.source) hpart ?_ ?_ ?_ ?_ (Archive.does_current? x.source)).mono
    (fun s hs => (hx s).mp hs) ?_
  · exact stable_sight view fun y => { y with source := x.source } = x
  · exact fun s archive hs => hs
  · exact ⟨fun s link => rfl⟩
  · exact fun a a' hsame ha => Eq.trans hsame ha
  · rintro r s - ⟨hrest, hfound, hsource⟩
    exact ⟨hfound, (hx s).mpr ⟨hrest, hsource⟩⟩

/-- What an attempt leaves that reports a version. -/
def Reloaded (c : ServiceConfig) (x : Sight α) (version : UInt64) (y : Sight α) : Prop :=
  Handled c x { y with outcome := .applied version }

theorem does_reload_sight (hcontent : x.source.elim Shelf.current? Folder.current = some b)
    (hdecode : decodeChange b = .ok c) :
    (solo Request (sight view)).Does i () (fun s => sight view s = x) reload
      (either (fun version s => Reloaded c x version (sight view s))
        fun s => sight view s = x) := by
  have hstable := stable_sight view fun y => y = x
  refine does_reload (K := fun content s => content = some b ∧ sight view s = x)
    (N := fun c' active s => (c' = c ∧ active = x.active) ∧ sight view s = x) ?_ ?_ ?_ ?_ ?_ ?_ ?_
  · exact fun content s s' hsame hs => ⟨hs.1, hstable s s' hsame hs.2⟩
  · exact fun c' active s s' hsame hs => ⟨hs.1, hstable s s' hsame hs.2⟩
  · refine (does_readArchive_sight x).mono (fun s hs => hs) ?_
    rintro (e | content) s - ⟨hfound, hs⟩
    · exact hs
    · exact ⟨(hfound content rfl).trans hcontent, hs⟩
  · exact fun content s hs => hs.2
  · rintro content c' s hc' - - ⟨⟨⟩, hs⟩
    refine ⟨trivial, ⟨?_, congrArg Sight.active hs⟩, hs⟩
    exact Except.ok.inj (hc'.symm.trans hdecode)
  · rintro active s - ⟨⟨rfl, hactive⟩, hs⟩
    rw [Reloaded, hs]
    exact .active hactive
  · intro c' active wallClock hne
    refine Protocol.does_of_known ?_
    rintro ⟨rfl, rfl⟩
    refine (does_apply_of_prepare (S := fun s => ∃ seen, sight view s =
      ⟨restamp wallClock x.active c', seen, x.outcome, x.source⟩) hstable ?_
      (does_onLink ⟨fun s link => rfl⟩ hstable _) ?_).mono (fun _ hs => hs) ?_
    · exact stable_sight view fun y =>
        ∃ seen, y = ⟨restamp wallClock x.active c', seen, x.outcome, x.source⟩
    · rintro s - - rfl
      exact ⟨trivial, _, rfl⟩
    · rintro (e | version) s - hr
      · exact hr
      · obtain ⟨rfl, seen, hs⟩ := hr
        change Handled c' x { sight view s with outcome := _ }
        rw [hs]
        exact .applied wallClock seen hne

/-- What a round leaves while the content that is kept is a well-formed one. -/
theorem handled_of_endsAmid {r : Except QuotaError Reply} (hcontent : s.archive.content? = some b)
    (hdecode : decodeChange b = .ok c) (h : (work .round).EndsAmid (sight view) s r s') :
    Handled c (sight view s) (sight view s') := by
  have hround : (solo Request (sight view)).Does .round () (fun s' => sight view s' = sight view s)
      (perform .round) (succeeds fun _ s' => Handled c (sight view s) (sight view s')) := by
    have hstable := stable_sight view fun y => y = sight view s
    have hhandled := stable_sight view fun y => Handled c (sight view s) y
    refine does_round hstable hstable hhandled hhandled
      (fun s' _ hs _ => ⟨trivial, hs⟩) ?_ fun s' _ hs => ⟨trivial, hs⟩
    refine does_handleChange ?_ hstable hhandled (does_reload_sight hcontent hdecode) ?_ ?_
    · exact fun v => stable_sight view fun y => Reloaded c (sight view s) v y
    · exact fun v s' _ _ hs => ⟨trivial, hs⟩
    · intro e s' _ _ hs
      refine ⟨trivial, ?_⟩
      change Handled c _ { sight view s' with outcome := _ }
      rw [hs]
      exact .failed e
  have hends := hround.of_endsAmid rfl h
  cases r with
  | ok u => exact hends
  | error e => exact absurd hends id

theorem Handled.source_eq {y : Sight α} (h : Handled c x y) : y.source = x.source := by
  cases h <;> rfl

theorem Handled.same {y : Sight α} (h : Handled c x y) (hc : x.active = c) :
    y.active = c ∧ y.view = x.view := by
  cases h with
  | failed e => exact ⟨hc, rfl⟩
  | active heq => exact ⟨hc, rfl⟩
  | applied wallClock seen hne => exact absurd hc.symm hne

theorem Handled.of_applied {y : Sight α} {version : UInt64} (h : Handled c x y)
    (hy : y.outcome = .applied version) :
    (c = x.active ∧ y.active = c) ∨
      ∃ wallClock, y.active = restamp wallClock x.active c ∧ version = y.active.version := by
  cases h with
  | failed e => cases hy
  | active heq => exact .inl ⟨heq, heq.symm⟩
  | applied wallClock seen hne =>
      cases hy
      exact .inr ⟨wallClock, rfl, rfl⟩

/-- One round after the other, while others change nothing that is seen. -/
def Rounds (view : Snapshot → α) : Site → Site → Prop :=
  Relation.ReflTransGen fun s s' => ∃ r, (work .round).EndsAmid (sight view) s r s'

theorem Rounds.same (hcontent : s.archive.content? = some b) (hdecode : decodeChange b = .ok c)
    (hactive : s.activeConfig = c) (h : Rounds view s s') :
    s'.activeConfig = c ∧ view s'.server.active = view s.server.active ∧
      s'.archive.source = s.archive.source := by
  induction h with
  | refl => exact ⟨hactive, rfl, rfl⟩
  | @tail s₁ s₂ _ hround ih =>
      obtain ⟨hactive₁, hview₁, hsource₁⟩ := ih
      obtain ⟨r, hround⟩ := hround
      have hcontent₁ : s₁.archive.content? = some b := by
        rw [Archive.content?, hsource₁]
        exact hcontent
      have hhandled := handled_of_endsAmid hcontent₁ hdecode hround
      obtain ⟨hactive₂, hview₂⟩ := hhandled.same hactive₁
      exact ⟨hactive₂, Eq.trans hview₂ hview₁, hhandled.source_eq.trans hsource₁⟩

end Site

end TokenQuota
