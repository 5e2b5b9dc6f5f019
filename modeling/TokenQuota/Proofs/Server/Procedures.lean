import TokenQuota.Proofs.Server.Rounds
import TokenQuota.Proofs.Server.Stamps

/-!
How a configuration becomes the active one, step by step, whatever the callers rely on: at the
start of the server, and in the rounds of the loop that applies changes.
-/

namespace TokenQuota

namespace Site

open TokenQuota.Protocol (either succeeds)

variable {μ : Type} {P : Protocol Request μ Site} {i : Request} {idle m : μ}

/-- To apply a configuration is to prepare the store, and to put the configuration in place. -/
theorem does_apply_of_prepare {J S : Site → Prop} {config : ServiceConfig} (hJ : P.Stable m J)
    (hS : P.Stable m S)
    (hprepare : P.Does i m J (onLink (Link.prepare config)) fun _ s => J s)
    (hinstall : ∀ s, P.inv s → P.given s → J s →
      P.move i m m s (install config s) ∧ S (install config s)) :
    P.Does i m J (apply config) (either (fun v s => v = config.version ∧ S s) J) := by
  refine .bind hprepare.outcome ?_ fun e s _ hs => absurd hs id
  intro r
  cases r with
  | error e =>
      refine (Protocol.does_throw hJ _).mono (fun _ hs => hs) ?_
      rintro r s _ ⟨rfl, hs⟩
      exact hs
  | ok u =>
      refine .bind (Protocol.does_modify hJ hS hinstall) ?_ fun e s _ hs => absurd hs id
      intro _
      refine (Protocol.does_pure hS config.version).mono (fun _ hs => hs) ?_
      rintro r s _ ⟨rfl, hs⟩
      exact ⟨rfl, hs⟩

/-- As above, where to prepare the store disturbs nothing. -/
theorem does_apply {J S : Site → Prop} {config : ServiceConfig} (hJ : P.Stable m J)
    (hS : P.Stable m S)
    (hlink : ∀ s s', J s → P.inv s → P.given s → s.Undisturbed s' →
      P.move i m m s s' ∧ P.rely m s s')
    (hinstall : ∀ s, P.inv s → P.given s → J s →
      P.move i m m s (install config s) ∧ S (install config s)) :
    P.Does i m J (apply config) (either (fun v s => v = config.version ∧ S s) J) :=
  does_apply_of_prepare hJ hS
    (Protocol.does_of_changes (undisturbed_onLink (Link.prepare config)) hJ hlink) hinstall

theorem does_publish {J S : Site → Prop} {outcome : Outcome} (hJ : P.Stable m J)
    (hS : P.Stable m S)
    (hreport : ∀ s, P.inv s → P.given s → J s →
      P.move i m m s (s.report outcome) ∧ S (s.report outcome)) :
    P.Does i m J (publish outcome) (succeeds fun _ => S) :=
  Protocol.does_modify hJ hS hreport

/-- An attempt to apply what is kept: what is known of the content that is read, of the
configuration that it writes beside the active one, and at the end. -/
theorem does_reload {J E : Site → Prop} {K : Option Bytes → Site → Prop}
    {N : ServiceConfig → ServiceConfig → Site → Prop} {R : UInt64 → Site → Prop}
    (hK : ∀ content, P.Stable m (K content)) (hN : ∀ c active, P.Stable m (N c active))
    (hread : P.Does i m J readArchive (either K E))
    (hfailed : ∀ content s, K content s → E s)
    (hnow : ∀ content c s, decodeChange content = .ok c → P.inv s → P.given s →
      K (some content) s → P.move i m m s s ∧ N c s.activeConfig s)
    (hsame : ∀ active s, P.inv s → N active active s → R active.version s)
    (happly : ∀ c active wallClock, c ≠ active →
      P.Does i m (N c active) (apply (restamp wallClock active c)) (either R E)) :
    P.Does i m J reload (either R E) := by
  refine .bind hread ?_ fun e s _ hs => hs
  intro content
  cases content with
  | none =>
      refine (Protocol.does_throw (hK none) _).mono (fun _ hs => hs) ?_
      rintro r s _ ⟨rfl, hs⟩
      exact hfailed none s hs
  | some content =>
      refine .bind (Protocol.does_ofExcept (hK (some content)) (decodeChange content)) ?_
        fun e s _ hs => hfailed _ s hs.2
      intro c
      refine Protocol.does_of_known fun hdecode => ?_
      have hread : P.Does i m (K (some content))
          (Action.read fun s => (s.activeConfig, s.wallClock) : Work _)
          (succeeds fun now s => N c now.1 s) :=
        Protocol.does_read (hK (some content)) (fun now => hN c now.1) fun s hinv hgiven hs =>
          hnow content c s hdecode.symm hinv hgiven hs
      refine .bind hread ?_ fun e s _ hs => absurd hs id
      rintro ⟨active, wallClock⟩
      change P.Does i m (N c active)
        (if c = active then pure active.version else apply (restamp wallClock active c)) _
      split
      · rename_i heq
        refine (Protocol.does_pure (hN c active) active.version).mono (fun _ hs => hs) ?_
        rintro r s hinv ⟨rfl, hs⟩
        rw [heq] at hs
        exact hsame active s hinv hs
      · rename_i hne
        exact happly c active wallClock hne

theorem does_handleChange {J E S : Site → Prop} {R : UInt64 → Site → Prop}
    (hR : ∀ v, P.Stable m (R v)) (hE : P.Stable m E) (hS : P.Stable m S)
    (hreload : P.Does i m J reload (either R E))
    (happlied : ∀ v s, P.inv s → P.given s → R v s →
      P.move i m m s (s.report (.applied v)) ∧ S (s.report (.applied v)))
    (hfailed : ∀ e s, P.inv s → P.given s → E s →
      P.move i m m s (s.report (.failed e)) ∧ S (s.report (.failed e))) :
    P.Does i m J handleChange (succeeds fun _ => S) := by
  refine .bind hreload.outcome ?_ fun e s _ hs => absurd hs id
  intro r
  cases r with
  | ok v => exact does_publish (hR v) hS (happlied v)
  | error e => exact does_publish hE hS (hfailed e)

/-- The first configuration is read, checked, applied and reported: what is known of it before it
is in place, when it is, and at the end. -/
theorem does_loadFirst {J E S : Site → Prop} {K : Option Bytes → Site → Prop}
    {F L : ServiceConfig → Site → Prop} (hJ : P.Stable m J) (hK : ∀ content, P.Stable m (K content))
    (hF : ∀ c, P.Stable m (F c)) (hL : ∀ c, P.Stable m (L c)) (hS : P.Stable m S)
    (hnotice : ∀ s, P.inv s → P.given s → J s →
      P.move i m m s { s with archive := (Archive.notice s.archive).2 } ∧
        J { s with archive := (Archive.notice s.archive).2 })
    (hread : P.Does i m J readArchive (either K E))
    (hunread : ∀ content s, K content s → E s)
    (hnothing : ∀ s, P.inv s → P.given s → K none s → P.move i m m s s ∧ F s.server.initial s)
    (hcontent : ∀ content c s, decode content = .ok c → K (some content) s → F c s)
    (hunapplied : ∀ c s, F c s → E s)
    (hprepare : ∀ c, P.Does i m (F c) (onLink (Link.prepare c)) fun _ s => F c s)
    (hinstall : ∀ c s, c.check = .ok () → P.inv s → P.given s → F c s →
      P.move i m m s (install c s) ∧ L c (install c s))
    (hreport : ∀ c s, P.inv s → P.given s → L c s →
      P.move i m m s (s.report (.applied c.version)) ∧ S (s.report (.applied c.version))) :
    P.Does i m J loadFirst (either (fun _ => S) E) := by
  have hfirst : ∀ c, P.Does i m (F c)
      (do
        Action.ofExcept (validate c)
        let version ← apply c
        publish (.applied version))
      (either (fun _ => S) E) := by
    intro c
    refine .bind (Protocol.does_ofExcept (hF c) (validate c)) ?_ fun e s _ hs =>
      hunapplied c s hs.2
    intro u
    refine Protocol.does_of_known fun hvalid => ?_
    have hcheck := validate_eq_ok_iff.mp hvalid.symm
    refine .bind (does_apply_of_prepare (hF c) (hL c) (hprepare c) fun s => hinstall c s hcheck) ?_
      fun e s _ hs => hunapplied c s hs
    intro version
    refine Protocol.does_of_known ?_
    rintro rfl
    exact (does_publish (hL c) hS (hreport c)).either_of_succeeds
  refine .bind (Protocol.does_modify hJ hJ hnotice) (fun _ => ?_) fun e s _ hs => absurd hs id
  refine .bind hread ?_ fun e s _ hs => hs
  intro content
  cases content with
  | none =>
      exact .bind (Protocol.does_read (hK none) hF hnothing) hfirst fun e s _ hs => absurd hs id
  | some content =>
      refine .bind (Protocol.does_ofExcept (hK (some content)) (decode content)) ?_
        fun e s _ hs => hunread _ s hs.2
      intro c
      exact (hfirst c).mono (fun s hs => hcontent content c s hs.1.symm hs.2) fun _ _ _ hr => hr

/-- To start a server is to become the one that loads, to load, and to leave off. -/
theorem safe_start {Starting Loaded : Site → Prop} (hstarting : P.Stable m Starting)
    (hloaded : P.Stable m Loaded) (hidle : ∀ s, P.inv s → P.move .start idle idle s s)
    (hbegin : ∀ s, P.inv s → s.server.lifecycle = .created →
      P.move .start idle m s { s with server.lifecycle := .starting } ∧
        Starting { s with server.lifecycle := .starting })
    (hload : P.Does .start m Starting loadFirst (either (fun _ => Loaded) Starting))
    (hcreated : ∀ s, P.inv s → Starting s →
      P.move .start m idle s { s with server.lifecycle := .created })
    (hlaunch : ∀ s, P.inv s → Loaded s → P.move .start m idle s (launch s).2) (s : Site) :
    P.Safe .start (fun _ _ _ => True) (work .start) idle s := by
  refine Protocol.Safe.bind (Q := fun _ _ _ => True) ?_ (fun _ _ _ _ _ _ _ _ => trivial)
    fun _ _ _ _ _ => trivial
  refine Protocol.Safe.bind (Q := fun m' r s => ∀ u, r = .ok u → m' = m ∧ Starting s)
    ?_ ?_ fun _ _ _ _ _ => trivial
  · refine Protocol.safe_atOnce ?_
    intro s₁ hinv _ _
    by_cases heq : s₁.server.lifecycle = .created
    · obtain ⟨hmove, hafter⟩ := hbegin s₁ hinv heq
      rw [transition_of_eq heq]
      exact ⟨m, hmove, fun s₂ _ hrely u _ => ⟨rfl, hstarting _ s₂ hrely hafter⟩⟩
    · obtain ⟨e, he⟩ := transition_of_ne .starting heq
      rw [he]
      refine ⟨idle, hidle s₁ hinv, ?_⟩
      rintro s₂ _ _ u ⟨⟩
  · rintro m' u s₁ _ hs₁
    obtain ⟨rfl, hs⟩ := hs₁ u rfl
    refine hload.outcome.safe_bind ?_ (fun _ _ _ _ => trivial) hs
    intro r s₂ _ hr
    cases r with
    | error e =>
        refine Protocol.Safe.bind (Q := fun _ _ _ => True) ?_ (fun _ _ _ _ _ _ _ _ => trivial)
          fun _ _ _ _ _ => trivial
        intro s₃ hinv _ hrely _
        exact ⟨idle, hcreated s₃ hinv (hstarting s₂ s₃ hrely hr), fun _ _ _ => trivial⟩
    | ok u =>
        intro s₃ hinv _ hrely _
        exact ⟨idle, hlaunch s₃ hinv (hloaded s₂ s₃ hrely hr), fun _ _ _ => trivial⟩

/-- A round takes up a change, handles it, and leaves off. -/
theorem safe_round {Taken Concluded : Site → Prop} (htaken : P.Stable m Taken)
    (hconcluded : P.Stable m Concluded)
    (htake : ∀ s, P.inv s → mayReload s = true →
      P.move .round idle m s s.takeUp ∧ Taken s.takeUp)
    (hhandle : P.Does .round m Taken handleChange (succeeds fun _ => Concluded))
    (hleave : ∀ s, P.inv s → Concluded s → P.move .round m idle s s.leaveOff) (s : Site) :
    P.Safe .round (fun _ _ _ => True) (work .round) idle s := by
  refine Protocol.Safe.bind (Q := fun _ _ _ => True) ?_ (fun _ _ _ _ _ _ _ _ => trivial)
    fun _ _ _ _ _ => trivial
  refine Protocol.Safe.bind (Q := fun m' r s => m' = m ∧ succeeds (fun _ => Taken) r s)
    ?_ ?_ fun _ _ _ _ _ => trivial
  · intro s₁ hinv _ _ hready
    obtain ⟨hmove, hafter⟩ := htake s₁ hinv hready
    exact ⟨m, hmove, fun s₂ _ hrely => ⟨rfl, htaken _ s₂ hrely hafter⟩⟩
  · rintro _ _ s₁ _ ⟨rfl, hs⟩
    refine hhandle.safe_bind ?_ (fun e s _ hs => absurd hs id) hs
    intro _ s₂ _ hs₂ s₃ hinv _ hrely _
    exact ⟨idle, hleave s₃ hinv (hconcluded s₂ s₃ hrely hs₂), fun _ _ _ => trivial⟩

/-- Callers that start a server or apply changes need to know nothing: whoever reads what is kept or
prepares the store does so as the protocol has it, and so whoever puts a configuration in place, or
changes neither the active configuration nor the link. -/
structure Plain (P : Protocol Request Unit Site) : Prop where
  readArchive : ∀ i, P.Does i () (fun _ => True) readArchive fun _ _ => True
  prepare : ∀ i c, P.Does i () (fun _ => True) (onLink (Link.prepare c)) fun _ _ => True
  install : ∀ i c s, P.inv s → P.move i () () s (install c s)
  aside : ∀ i s s', P.inv s → s'.server.active = s.server.active → s'.link = s.link →
    P.move i () () s s'

namespace Plain

variable {P : Protocol Request Unit Site}

theorem stable_true : P.Stable () fun _ => True := fun _ _ _ _ => trivial

/-- Nothing is known of a result. -/
theorem does_either {α : Type} {x : Work α} (hx : P.Does i () (fun _ => True) x fun _ _ => True) :
    P.Does i () (fun _ => True) x (either (fun _ _ => True) fun _ => True) := by
  refine hx.mono (fun _ hs => hs) ?_
  rintro (e | a) s _ _
  · trivial
  · trivial

theorem does_apply (h : Plain P) (c : ServiceConfig) :
    P.Does i () (fun _ => True) (apply c) (either (fun _ _ => True) fun _ => True) :=
  does_either ((does_apply_of_prepare stable_true (S := fun _ => True) stable_true (h.prepare i c)
    fun s hs _ _ => ⟨h.install i c s hs, trivial⟩).mono (fun _ hs => hs) fun _ _ _ _ => trivial)

theorem does_loadFirst (h : Plain P) : P.Does i () (fun _ => True) loadFirst
    (either (fun _ _ => True) fun _ => True) := by
  refine Site.does_loadFirst (F := fun _ _ => True) (L := fun _ _ => True) stable_true
    (fun _ => stable_true) (fun _ => stable_true) (fun _ => stable_true) stable_true ?_
    (does_either (h.readArchive i)) (fun _ _ _ => trivial) ?_ (fun _ _ _ _ _ => trivial)
    (fun _ _ _ => trivial) (h.prepare i) ?_ ?_
  · exact fun s hs _ _ => ⟨h.aside i s _ hs rfl rfl, trivial⟩
  · exact fun s hs _ _ => ⟨h.aside i s _ hs rfl rfl, trivial⟩
  · exact fun c s _ hs _ _ => ⟨h.install i c s hs, trivial⟩
  · exact fun c s hs _ _ => ⟨h.aside i s _ hs rfl rfl, trivial⟩

theorem does_reload (h : Plain P) : P.Does i () (fun _ => True) reload
    (either (fun _ _ => True) fun _ => True) := by
  refine Site.does_reload (K := fun _ _ => True) (N := fun _ _ _ => True) (fun _ => stable_true)
    (fun _ _ => stable_true) (does_either (h.readArchive i)) (fun _ _ _ => trivial)
    (fun _ _ s _ hs _ _ => ⟨h.aside i s s hs rfl rfl, trivial⟩) (fun _ _ _ _ => trivial) ?_
  exact fun c active wallClock _ => h.does_apply _

theorem safe_start (h : Plain P) (s : Site) :
    P.Safe .start (fun _ _ _ => True) (work .start) () s := by
  refine Site.safe_start stable_true stable_true (fun s hs => h.aside _ s s hs rfl rfl)
    (fun s hs _ => ⟨h.aside _ s _ hs rfl rfl, trivial⟩) h.does_loadFirst
    (fun s hs _ => h.aside _ s _ hs rfl rfl) (fun s hs _ => ?_) s
  refine h.aside _ s _ hs ?_ ?_
  · unfold launch transition
    dsimp only
    split <;> rfl
  · unfold launch transition
    dsimp only
    split <;> rfl

theorem safe_round (h : Plain P) (s : Site) :
    P.Safe .round (fun _ _ _ => True) (work .round) () s :=
  Site.safe_round stable_true stable_true (fun s hs _ => ⟨h.aside _ s _ hs rfl rfl, trivial⟩)
    (does_handleChange (fun _ => stable_true) stable_true stable_true h.does_reload
      (fun _ s hs _ _ => ⟨h.aside _ s _ hs rfl rfl, trivial⟩)
      fun _ s hs _ _ => ⟨h.aside _ s _ hs rfl rfl, trivial⟩)
    (fun s hs _ => h.aside _ s _ hs rfl rfl) s

theorem does_allow (h : Plain P) {ns bucket : String} {tokens : Int} {maxWait : Nat}
    (haccept : ∀ s, P.inv s → P.move i () () s (accept ns bucket tokens s).2)
    (htake : ∀ retry b, P.Does i () (fun _ => True) (onLink (Link.take retry b tokens maxWait))
      fun _ _ => True) :
    P.Does i () (fun _ => True) (allow ns bucket tokens maxWait) fun _ _ => True := by
  refine .bind (Protocol.does_check stable_true (fun _ => stable_true)
    fun s hs _ _ => ⟨haccept s hs, trivial⟩) (fun b => ?_) fun _ _ _ _ => trivial
  refine .bind (Protocol.does_read (S := fun _ _ => True) stable_true (fun _ => stable_true)
    fun s hs _ _ => ⟨h.aside i s s hs rfl rfl, trivial⟩) (fun retry => ?_) fun _ _ _ _ => trivial
  refine .bind (htake retry b) (fun v => ?_) fun _ _ _ _ => trivial
  cases b.dynamic with
  | false =>
      exact (Protocol.does_pure stable_true v).mono (fun _ hs => hs) fun _ _ _ _ => trivial
  | true =>
      refine .bind (Protocol.does_modify (S := fun _ => True) stable_true stable_true
        fun s hs _ _ => ⟨h.aside i s _ hs rfl rfl, trivial⟩) (fun _ => ?_) fun _ _ _ _ => trivial
      exact (Protocol.does_pure stable_true v).mono (fun _ hs => hs) fun _ _ _ _ => trivial

end Plain

end Site

end TokenQuota
