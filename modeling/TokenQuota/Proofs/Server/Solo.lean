import TokenQuota.Proofs.Archive.Current
import TokenQuota.Proofs.Server.Procedures

/-!
A server with one caller at a time. The others may do what they like with the store, and with all
else that is not to be still.
-/

namespace TokenQuota

universe u v

namespace Site

open TokenQuota.Protocol (either solo succeeds)

variable {υ : Type u} {ω : Type v} {still : Site → υ} {i : Request} {α : Type} {J : Site → Prop}

theorem does_onLink (hlink : CoversLink fun s s' => still s' = still s)
    (hJ : (solo Request still).Stable () J) (a : Link.Client α) : (solo Request still).Does i () J (onLink a) fun _ s => J s :=
  Protocol.does_of_changes (hlink.changes_onLink a) hJ fun _ _ _ _ _ hsame => ⟨trivial, hsame⟩

section OnArchive

variable {stillPart : Archive → ω} {F : Archive → Prop}
variable (hpart : ∀ s s', still s' = still s → stillPart s'.archive = stillPart s.archive)
variable (hJ : (solo Request still).Stable () J)
variable (hset : ∀ s archive, J s → J { s with archive })

include hpart hJ hset

/-- What is done to an archive is done there. -/
theorem does_onArchive {a : Archive.Keeper α} {R : Except QuotaError α → Archive → Prop}
    (ha : (solo Unit stillPart).Does () () F a R) :
    (solo Request still).Does i () (fun s => J s ∧ F s.archive) (onArchive a)
      fun r s => J s ∧ R r s.archive :=
  ha.onPart (p := archivePart) (fun _ _ => rfl) hpart hJ hset

/-- To read what is kept is to ask the archive for it. -/
theorem does_readArchive_of_current? {R : Except QuotaError (Option Bytes) → Archive → Prop}
    (hlink : CoversLink fun s s' => still s' = still s)
    (hF : (solo Unit stillPart).Stable () F)
    (hcurrent : (solo Unit stillPart).Does () () F Archive.current? R) :
    (solo Request still).Does i () (fun s => J s ∧ F s.archive) readArchive
      fun r s => J s ∧ R r s.archive := by
  have hboth : (solo Request still).Stable () fun s => J s ∧ F s.archive := fun s s' hsame hs =>
    ⟨hJ s s' hsame hs.1, hF s.archive s'.archive (hpart s s' hsame) hs.2⟩
  refine .bind (Protocol.does_ofTask_of_changes hlink.changes_delay hboth
    fun _ _ _ _ _ hsame => ⟨trivial, hsame⟩) (fun _ => does_onArchive hpart hJ hset hcurrent)
    fun e s _ hs => absurd hs id

end OnArchive

/-- A round takes up a change, handles it, and leaves off. -/
theorem does_round {μ : Type} {P : Protocol Request μ Site} {m : μ}
    {Taken Concluded S : Site → Prop} (hJ : P.Stable m J) (htaken : P.Stable m Taken) (hconcluded : P.Stable m Concluded)
    (hS : P.Stable m S)
    (htake : ∀ s, P.inv s → J s → mayReload s = true → P.move i m m s s.takeUp ∧ Taken s.takeUp)
    (hhandle : P.Does i m Taken handleChange (succeeds fun _ => Concluded))
    (hleave : ∀ s, P.inv s → Concluded s → P.move i m m s s.leaveOff ∧ S s.leaveOff) :
    P.Does i m J (perform .round) (succeeds fun _ => S) := by
  have hround : P.Does i m J reloadOnce (succeeds fun _ => S) := by
    refine .bind (Protocol.does_await hJ htaken fun s hinv _ => htake s hinv) (fun _ => ?_)
      fun e s _ hs => absurd hs id
    refine .bind hhandle (fun _ => ?_) fun e s _ hs => absurd hs id
    exact Protocol.does_modify hconcluded hS fun s hinv _ => hleave s hinv
  refine .bind hround (fun _ => ?_) fun e s _ hs => absurd hs id
  refine (Protocol.does_pure hS Reply.done).mono (fun _ hs => hs) ?_
  rintro _ s - ⟨rfl, hs⟩
  exact hs

end Site

end TokenQuota
