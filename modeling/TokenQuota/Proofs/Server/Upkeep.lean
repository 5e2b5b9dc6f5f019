import TokenQuota.Proofs.Server.ReloadSafety
import TokenQuota.Proofs.Server.Tallying

/-!
A server over a link on which no call of a request fails is up as soon as it was started, whatever
requests come meanwhile.
-/

namespace TokenQuota

namespace Site

variable {s s' : Site} {i : Request}

namespace Upkeep

/-- What holds of a server also before it is started. -/
structure Inv (s : Site) : Prop where
  lawful : s.server.active.buckets.Lawful
  link : s.link.Sound

/-- All requests, of which none forgets a script. -/
def rules : Protocol Request Unit Site where
  inv := Inv
  given _ := True
  rely _ s s' := s.link.Remembers s'.link
  move _ _ _ s s' := Inv s' ∧ s.link.Remembers s'.link
  rely_refl _ _ _ hscript := hscript
  rely_trans h h' script hscript := h' script (h script hscript)

theorem stable_true : rules.Stable () fun _ => True := fun _ _ _ _ => trivial

theorem move_of_upholds (h : s.Upholds s') (hs : Inv s) : rules.move i () () s s' := by
  obtain ⟨hsound, hremembers, -⟩ := h.link hs.link
  exact ⟨⟨h.lawful hs.lawful, hsound⟩, hremembers⟩

/-- A step that neither applies a configuration nor works on the link. -/
theorem move_of_eq (hs : Inv s) (hactive : s'.server.active = s.server.active)
    (hlink : s'.link = s.link) : rules.move i () () s s' := by
  refine ⟨⟨?_, ?_⟩, ?_⟩
  · rw [hactive]
    exact hs.lawful
  · rw [hlink]
    exact hs.link
  · rw [hlink]
    exact fun _ hscript => hscript

theorem move_install (c : ServiceConfig) (hs : Inv s) : rules.move i () () s (install c s) :=
  ⟨⟨Container.lawful_make c s.roster, hs.link⟩, fun _ hscript => hscript⟩

theorem does_of_upholds {α : Type} {x : Work α} (hx : x.run.Changes Upholds) :
    rules.Does i () (fun _ => True) x fun _ _ => True :=
  Protocol.does_of_changes hx stable_true fun _ _ _ hs _ h =>
    have hmove := move_of_upholds (i := i) h hs
    ⟨hmove, hmove.2⟩

theorem embeds_errand (errand : Link.Errand) :
    Link.errands.Embeds rules linkPart errand i fun _ => () :=
  embeds_of_sound errand (fun _ hs => hs.link) (fun _ _ h => h)
    fun _ _ hs hsound hremembers => ⟨⟨hs.lawful, hsound⟩, hremembers⟩

theorem plain : Plain rules where
  readArchive _ := does_of_upholds covers_upholds.changes_readArchive
  prepare _ c := does_prepare_of_embeds (embeds_errand .tend) c
  install _ c _ hs := move_install c hs
  aside _ _ _ hs hactive hlink := move_of_eq hs hactive hlink

theorem does_allow (ns bucket : String) (tokens : Int) (maxWait : Nat) :
    rules.Does i () (fun _ => True) (allow ns bucket tokens maxWait) fun _ _ => True := by
  refine plain.does_allow (fun s hs => ?_) fun retry b s _ => ?_
  · exact move_of_upholds (upholds_accept ns bucket tokens s) hs
  · exact (Protocol.Safe.onPart (embeds_errand (.ask b tokens maxWait))
      (Link.safe_take retry b tokens maxWait)).mono fun _ _ _ _ _ => ⟨rfl, trivial⟩

theorem safe_work (i : Request) (s : Site) :
    rules.Safe i (fun _ _ _ => True) (work i) () s := by
  by_cases hstart : i = .start
  · subst hstart
    exact plain.safe_start s
  · by_cases hround : i = .round
    · subst hround
      exact plain.safe_round s
    · cases htake : isTake i with
      | true =>
          cases i with
          | allow ns bucket tokens maxWait =>
              exact (Protocol.Does.bind (does_allow ns bucket tokens maxWait)
                (fun v => (Protocol.does_pure stable_true _).mono (fun _ hs => hs)
                  fun _ _ _ _ => trivial)
                (fun _ _ _ _ => trivial) s trivial).mono fun _ _ _ _ _ => trivial
          | _ => cases htake
      | false =>
          exact (does_of_upholds (upholds_work htake hstart hround) s trivial).mono
            fun _ _ _ _ _ => trivial

theorem inv_of_run {s₀ : Site} {es : List (Event Site)}
    {p : Pool Request Site (Except QuotaError Reply)} (hinv : Inv s₀)
    (hrun : Pool.Run work Elsewhere s₀ es p) : Inv p.state := by
  have hkeeps : rules.Keeps () Elsewhere fun s _ _ => Inv s := by
    refine ⟨id, fun h _ => h, fun _ _ _ hmove => hmove.1, fun _ _ hmove _ _ _ _ _ => hmove.2,
      fun h hs => ?_, fun _ hs _ _ _ _ => ?_⟩
    · obtain ⟨now, archive, wallClock, rfl⟩ := hs
      exact ⟨h.lawful, h.link.setNow now⟩
    · obtain ⟨now, archive, wallClock, rfl⟩ := hs
      exact fun _ hscript => hscript
  obtain ⟨roles, h, -⟩ := hrun.guarded hkeeps safe_work hinv fun _ _ => trivial
  exact h

end Upkeep

/-- Whatever requests come to a server, once it was started it is up. -/
theorem isUp_of_isFresh {s₀ : Site} {es : List (Event Site)}
    {p : Pool Request Site (Except QuotaError Reply)} (hfresh : s₀.IsFresh)
    (hlink : s₀.link.Sound) (hrun : Pool.Run work Elsewhere s₀ es p)
    (hstarted : p.state.WasStarted) : p.state.IsUp := by
  have haround : Pool.Run work Around s₀ es p := by
    refine hrun.mono ?_
    rintro s _ ⟨now, archive, wallClock, rfl⟩
    rfl
  obtain ⟨hinv, -⟩ := Applying.duties.inv_of_run
    (fun _ _ hinv h => Applying.around_harmless hinv h) Applying.safe_work
    (Applying.inv_of_isFresh hfresh) haround fun _ _ => trivial
  have hlawful : s₀.server.active.buckets.Lawful := by
    obtain ⟨initial, sweepMillis, retry, since, heq⟩ := hfresh
    rw [heq]
    intro key nb hnb
    cases hnb
  have hupkeep := Upkeep.inv_of_run ⟨hlawful, hlink⟩ hrun
  exact ⟨hstarted, hinv.isServed hstarted, hupkeep.lawful, hupkeep.link⟩

end Site

end TokenQuota
