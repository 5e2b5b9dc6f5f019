import TokenQuota.Proofs.Server.Editing
import TokenQuota.Proofs.Server.Solo

/-!
Where a server stands, as far as its configurations go, and how one request after the other takes it
from there: a request keeps a configuration, applies one, starts or stops the server, or does none
of these. Configurations are kept in memory, or in a folder whose accesses do not fail.
-/

namespace TokenQuota

namespace Site

open TokenQuota.Protocol (either solo succeeds)

/-- Where a server stands in its life, with its configurations and the content that is kept. -/
structure Standing where
  lifecycle : Lifecycle
  initial : ServiceConfig
  active : ServiceConfig
  content : Option Bytes

namespace Standing

/-- The configuration that is kept, or else the initial one. -/
def latest (v : Standing) : Except QuotaError ServiceConfig :=
  match v.content with
  | some content => decode content
  | none => .ok v.initial

/-- What a request makes of the standing of a server. -/
inductive Step (v : Standing) : Standing → Prop
  | stays : Step v v
  | keeps {wallClock : UInt64} (hclock : wallClock ≠ 0) (user : String) (config : ServiceConfig) :
      Step v { v with
        content := some (stamp wallClock v.active (stampOf v.content) user config).write }
  | applies {content : Bytes} {config : ServiceConfig} (hcontent : v.content = some content)
      (hdecode : decode content = .ok config) (hne : config ≠ v.active) (wallClock : UInt64) :
      Step v { v with active := restamp wallClock v.active config }
  | starts {config : ServiceConfig} (hcreated : v.lifecycle = .created)
      (hlatest : v.latest = .ok config) :
      Step v { v with lifecycle := .started, active := config }
  | stops (hstarted : v.lifecycle = .started) : Step v { v with lifecycle := .stopped }

end Standing

/-- What others leave alone while somebody works for a server. -/
def alone (s : Site) : Lifecycle × ServiceConfig × ServiceConfig × Bool × Archive :=
  (s.server.lifecycle, s.server.initial, s.activeConfig, s.wallClock == 0, s.archive)

/-- A server has some standing, its archive aside, and the clock is set. -/
structure Faces (s : Site) (v : Standing) : Prop where
  lifecycle : s.server.lifecycle = v.lifecycle
  initial : s.server.initial = v.initial
  active : s.activeConfig = v.active
  clock : s.wallClock ≠ 0

def Stands (s : Site) (v : Standing) : Prop := s.Faces v ∧ s.archive.Holds v.content

/-- A request took a server from some standing. -/
def Stepped (v : Standing) (s : Site) : Prop := ∃ v', v.Step v' ∧ s.Stands v'

variable {s s' : Site} {v : Standing} {i : Request} {α β : Type}

theorem Faces.of_alone (h : s.Faces v) (hsame : alone s' = alone s) : s'.Faces v := by
  obtain ⟨hlifecycle, hinitial, hactive, hclock, -⟩ : s'.server.lifecycle = _ ∧
      s'.server.initial = _ ∧ s'.activeConfig = _ ∧ (s'.wallClock == 0) = _ ∧ s'.archive = _ := by
    simpa only [alone, Prod.mk.injEq] using hsame
  refine ⟨hlifecycle.trans h.lifecycle, hinitial.trans h.initial, hactive.trans h.active, ?_⟩
  have hset := h.clock
  rwa [← beq_eq_false_iff_ne, ← hclock, beq_eq_false_iff_ne] at hset

theorem Faces.of_eq (h : s.Faces v) (hlifecycle : s'.server.lifecycle = s.server.lifecycle)
    (hinitial : s'.server.initial = s.server.initial) (hactive : s'.activeConfig = s.activeConfig)
    (hclock : s'.wallClock = s.wallClock) : s'.Faces v :=
  ⟨hlifecycle.trans h.lifecycle, hinitial.trans h.initial, hactive.trans h.active,
    hclock ▸ h.clock⟩

theorem archive_eq_of_alone (hsame : alone s' = alone s) : s'.archive = s.archive :=
  congrArg (fun x => x.2.2.2.2) hsame

theorem Stands.of_alone (h : s.Stands v) (hsame : alone s' = alone s) : s'.Stands v :=
  ⟨h.1.of_alone hsame, archive_eq_of_alone hsame ▸ h.2⟩

theorem stable_faces (v : Standing) : (solo Request alone).Stable () (Faces · v) :=
  fun _ _ hsame hs => hs.of_alone hsame

theorem stable_stands (v : Standing) : (solo Request alone).Stable () (Stands · v) :=
  fun _ _ hsame hs => hs.of_alone hsame

theorem stable_stepped (v : Standing) : (solo Request alone).Stable () (Stepped v) :=
  fun _ _ hsame ⟨v', hstep, hs⟩ => ⟨v', hstep, hs.of_alone hsame⟩

theorem stepped_of_stands (h : s.Stands v) : Stepped v s := ⟨v, .stays, h⟩

/-- The store, its buckets and the counts make no difference. -/
theorem covers_alone : CoversMinor fun s s' => alone s' = alone s where
  link _ _ := rfl
  refl _ := rfl
  resolve ns bucket s := by
    unfold resolve
    split <;> rfl
  sweep _ := rfl
  stats _ _ := rfl

theorem does_onArchive_of_runsTo {a : Archive.Keeper α} {R : Except QuotaError α → Prop}
    {b : Option Bytes} (h : ∀ x : Archive, x.Holds v.content →
      ∃ r x', a.run.RunsTo x r x' ∧ R r ∧ x'.Holds b) :
    (solo Request alone).Does i () (Stands · v) (onArchive a)
      fun r s => R r ∧ s.Stands { v with content := b } := by
  -- The whole archive is still, so what runs alone there is not disturbed.
  have hpart : ∀ s s', alone s' = alone s → id s'.archive = id s.archive :=
    fun _ _ => archive_eq_of_alone
  refine (does_onArchive (J := (Faces · v)) (F := (Archive.Holds · v.content)) hpart
    (stable_faces v) (fun s archive hs => ⟨hs.lifecycle, hs.initial, hs.active, hs.clock⟩)
    (Protocol.does_of_runsTo h)).mono (fun _ hs => hs) ?_
  rintro r s - ⟨hs, hr, hholds⟩
  exact ⟨hr, ⟨hs.lifecycle, hs.initial, hs.active, hs.clock⟩, hholds⟩

/-- An action leaves a server where it stands, and tells something unless it fails. -/
def Learns (i : Request) (v : Standing) (a : Work α) (p : α → Prop) : Prop :=
  (solo Request alone).Does i () (Stands · v) a
    (either (fun x s => p x ∧ s.Stands v) (Stands · v))

/-- An action takes a server from where it stands. -/
def Proceeds (i : Request) (v : Standing) (a : Work α) : Prop :=
  (solo Request alone).Does i () (Stands · v) a fun _ s => Stepped v s

theorem Learns.proceeds {a : Work α} {f : α → Work β} {p : α → Prop} (ha : Learns i v a p)
    (hf : ∀ x, p x → Proceeds i v (f x)) : Proceeds i v (a >>= f) :=
  .bind ha (fun x => Protocol.does_of_known (hf x)) fun _ _ _ hs => stepped_of_stands hs

theorem Proceeds.followed {a : Work α} {f : α → Work β} (ha : Proceeds i v a)
    (hf : ∀ x, (f x).run.Changes fun s s' => alone s' = alone s) : Proceeds i v (a >>= f) :=
  .bind ha (fun x => Protocol.does_of_changes (hf x) (stable_stepped v)
    fun _ _ _ _ _ hsame => ⟨trivial, hsame⟩) fun _ _ _ hs => hs

theorem learns_ofExcept (x : Except QuotaError α) :
    Learns i v (Action.ofExcept x) fun a => x = .ok a := by
  refine (Protocol.does_ofExcept (stable_stands v) x).mono (fun _ hs => hs) ?_
  rintro (e | a) s - ⟨hr, hs⟩
  · exact hs
  · exact ⟨hr.symm, hs⟩

theorem learns_read {f : Site → α} {p : α → Prop} (h : ∀ s, s.Stands v → p (f s)) :
    Learns i v (Action.read f) p :=
  (Protocol.does_read (stable_stands v) (fun _ _ _ hsame hs => ⟨hs.1, hs.2.of_alone hsame⟩)
    fun s _ _ hs => ⟨trivial, h s hs, hs⟩).either_of_succeeds

theorem learns_readArchive : Learns i v readArchive fun content => content = v.content := by
  refine .bind (Protocol.does_ofTask_of_changes covers_alone.changes_delay (stable_stands v)
    fun _ _ _ _ _ hsame => ⟨trivial, hsame⟩) (fun _ => ?_) fun _ _ _ hs => absurd hs id
  refine (does_onArchive_of_runsTo (R := fun r => r = .ok v.content) (b := v.content)
    fun x h => ?_).mono (fun _ hs => hs) ?_
  · obtain ⟨x', hrun, hholds⟩ := h.runsTo_current?
    exact ⟨_, x', hrun, rfl, hholds⟩
  · rintro _ s - ⟨rfl, hs⟩
    exact ⟨rfl, hs⟩

theorem learns_latest : Learns i v latest fun _ => True := by
  refine .bind learns_readArchive (fun content => Protocol.does_of_known fun _ => ?_)
    fun _ _ _ hs => hs
  have hknown : ∀ {a : Work ServiceConfig} {p : ServiceConfig → Prop}, Learns i v a p →
      Learns i v a fun _ => True := fun h => h.mono (fun _ hs => hs) (by
    rintro (e | c) s - hs
    · exact hs
    · exact ⟨trivial, hs.2⟩)
  cases content with
  | some content => exact hknown (learns_ofExcept _)
  | none => exact learns_read fun _ _ => trivial

theorem proceeds_of_changes {a : Work α} (h : a.run.Changes fun s s' => alone s' = alone s) :
    Proceeds i v a :=
  (Protocol.does_of_changes h (stable_stands v) fun _ _ _ _ _ hsame => ⟨trivial, hsame⟩).mono
    (fun _ hs => hs) fun _ _ _ hs => stepped_of_stands hs

theorem does_keep (content : Bytes) :
    (solo Request alone).Does i () (Stands · v) (onArchive (Archive.keep content))
      fun _ s => s.Stands { v with content := some content } := by
  refine (does_onArchive_of_runsTo (R := fun _ => True) fun x hx => ?_).mono (fun _ hs => hs)
    fun _ _ _ hs => hs.2
  obtain ⟨x', hrun, hholds⟩ := hx.runsTo_keep content
  exact ⟨_, x', hrun, trivial, hholds⟩

theorem proceeds_keep (content : Bytes) (h : v.Step { v with content := some content }) :
    Proceeds i v (onArchive (Archive.keep content)) :=
  (does_keep content).mono (fun _ hs => hs) fun _ _ _ hs => ⟨_, h, hs⟩

theorem proceeds_persist (user : String) (config : ServiceConfig) :
    Proceeds i v (persist user config) := by
  refine (learns_ofExcept _).proceeds fun _ _ => ?_
  refine (learns_read (p := (· = v.active)) fun s hs => hs.1.active).proceeds ?_
  rintro _ rfl
  refine learns_readArchive.proceeds ?_
  rintro _ rfl
  refine (learns_read (p := (· ≠ 0)) fun s hs => hs.1.clock).proceeds fun wallClock hclock => ?_
  exact proceeds_keep _ (.keeps hclock user config)

theorem proceeds_history : Proceeds i v history := by
  refine .bind (R := fun _ => Stepped v) ?_ (fun contents => ?_) fun _ _ _ hs => hs
  · refine (does_onArchive_of_runsTo (R := fun _ => True) (b := v.content)
      fun x hx => ?_).mono (fun _ hs => hs) fun _ _ _ hs => stepped_of_stands hs.2
    obtain ⟨r, x', hrun, hholds⟩ := hx.runsTo_history
    exact ⟨r, x', hrun, trivial, hholds⟩
  · exact (Protocol.does_ofExcept (stable_stepped v) _).mono (fun _ hs => hs) fun _ _ _ hs => hs.2

theorem alone_lock (taken : Bool) (s : Site) : alone (lock.set taken s) = alone s := rfl

theorem Proceeds.holding {a : Work α} (ha : Proceeds i v a) :
    Proceeds i v (Action.holding lock a) := fun _ hs =>
  Protocol.safe_holding_where lock (Q := fun m _ s => m = () ∧ Stepped v s) (stable_stands v)
    (fun _ _ s s' hsame hs => ⟨hs.1, stable_stepped v s s' hsame hs.2⟩)
    (fun s _ hs _ => ⟨trivial, hs.of_alone (alone_lock true s)⟩) ha
    (fun m _ s _ hs => ⟨m, trivial, hs.1, stable_stepped v _ _ (alone_lock false s) hs.2⟩) hs

theorem proceeds_edit (user : String) (e : Edit) : Proceeds i v (edit user e) := by
  refine Proceeds.followed (Proceeds.holding ?_) fun _ => ?_
  · refine learns_latest.proceeds fun config _ => ?_
    exact (learns_ofExcept _).proceeds fun edited _ => proceeds_persist user edited
  · cases e with
    | deleteNamespace ns =>
        exact Action.changes_ofTask (Task.changes_modify fun s => covers_alone.stats s _)
    | _ => exact trivial

theorem does_transition (source target : Lifecycle) :
    (solo Request alone).Does i () (Stands · v) (Action.atOnce (transition source target))
      (either (fun _ s => v.lifecycle = source ∧ s.Stands { v with lifecycle := target })
        (Stands · v)) := by
  refine Protocol.does_check (stable_stands v) ?_ ?_
  · rintro (e | u) s s' hsame hs
    · exact hs.of_alone hsame
    · exact ⟨hs.1, hs.2.of_alone hsame⟩
  · intro s _ _ hs
    refine ⟨trivial, ?_⟩
    unfold transition
    split
    · rename_i heq
      exact ⟨hs.1.lifecycle.symm.trans heq, ⟨rfl, hs.1.initial, hs.1.active, hs.1.clock⟩, hs.2⟩
    · exact hs

theorem proceeds_stop : Proceeds i v stop := by
  have htransition : Proceeds i v (Action.atOnce (transition .started .stopped)) := by
    refine (does_transition .started .stopped).mono (fun _ hs => hs) ?_
    rintro (e | u) s - hs
    · exact stepped_of_stands hs
    · exact ⟨_, .stops hs.1, hs.2⟩
  refine htransition.followed fun _ => ?_
  refine Action.changes_bind (Action.changes_ofTask (Task.changes_await fun _ _ => rfl)) fun _ => ?_
  exact covers_alone.changes_onLink Link.close

theorem does_loadFirst_alone : (solo Request alone).Does i () (Stands · v) loadFirst
    (either (fun _ s => ∃ c, v.latest = .ok c ∧ s.Stands { v with active := c })
      (Stands · v)) := by
  have hknown : ∀ (p : Prop) (v' : Standing),
      (solo Request alone).Stable () fun s => p ∧ Stands s v' :=
    fun p v' s s' hsame hs => ⟨hs.1, hs.2.of_alone hsame⟩
  have hsome : (solo Request alone).Stable () fun s =>
      ∃ c, v.latest = .ok c ∧ Stands s { v with active := c } :=
    fun s s' hsame ⟨c, hc, hs⟩ => ⟨c, hc, hs.of_alone hsame⟩
  refine does_loadFirst (K := fun content s => content = v.content ∧ s.Stands v)
    (F := fun c s => v.latest = .ok c ∧ s.Stands v)
    (L := fun c s => v.latest = .ok c ∧ s.Stands { v with active := c }) (stable_stands v)
    (fun _ => hknown _ v) (fun _ => hknown _ v) (fun c => hknown _ { v with active := c }) hsome
    ?_ learns_readArchive (fun _ _ hs => hs.2) ?_ ?_ (fun _ _ hs => hs.2) ?_ ?_ ?_
  · exact fun s _ _ hs => ⟨trivial, hs.1.of_eq rfl rfl rfl rfl, hs.2.noticed⟩
  · rintro s - - ⟨hcontent, hs⟩
    refine ⟨trivial, ?_, hs⟩
    rw [Standing.latest, ← hcontent, hs.1.initial]
  · rintro content c s hdecode ⟨hcontent, hs⟩
    refine ⟨?_, hs⟩
    rw [Standing.latest, ← hcontent]
    exact hdecode
  · exact fun c => does_onLink covers_alone.toCoversLink (hknown _ v) _
  · rintro c s - - - ⟨hlatest, hs⟩
    exact ⟨trivial, hlatest, ⟨hs.1.lifecycle, hs.1.initial, rfl, hs.1.clock⟩, hs.2⟩
  · rintro c s - - ⟨hlatest, hs⟩
    exact ⟨trivial, c, hlatest, hs.of_alone rfl⟩

theorem proceeds_start : Proceeds i v start := by
  refine .bind (does_transition .created .starting) (fun _ => ?_) fun _ _ _ hs =>
    stepped_of_stands hs
  refine Protocol.does_of_known fun hcreated => ?_
  refine .bind does_loadFirst_alone.outcome (fun r => ?_) fun _ _ _ hs => absurd hs id
  cases r with
  | error e =>
      refine .bind (Protocol.does_modify (S := (Stands · v)) (stable_stands _) (stable_stands v) ?_)
        (fun _ => ?_) fun _ _ _ hs => absurd hs id
      · rintro s - - ⟨hs, hholds⟩
        exact ⟨trivial, ⟨hcreated.symm, hs.initial, hs.active, hs.clock⟩, hholds⟩
      · exact (Protocol.does_throw (stable_stands v) e).mono (fun _ hs => hs) fun _ _ _ hs =>
          stepped_of_stands hs.2
  | ok u =>
      refine Protocol.does_check ?_ (fun _ => stable_stepped v) ?_
      · exact fun s s' hsame ⟨c, hc, hs⟩ => ⟨c, hc, hs.of_alone hsame⟩
      · rintro s - - ⟨c, hlatest, hs, hholds⟩
        rw [launch_eq hs.lifecycle]
        refine ⟨trivial, _, .starts hcreated hlatest, ?_, hholds⟩
        exact ⟨rfl, hs.initial, hs.active, hs.clock⟩

theorem does_reload_alone : (solo Request alone).Does i () (Stands · v) reload
    (either (fun _ => Stepped v) (Stands · v)) := by
  refine does_reload (K := fun content s => content = v.content ∧ s.Stands v)
    (N := fun c active s => ((∃ content, v.content = some content ∧ decode content = .ok c) ∧
      active = v.active) ∧ s.Stands v) ?_ ?_ learns_readArchive (fun _ _ hs => hs.2) ?_ ?_ ?_
  · exact fun _ s s' hsame hs => ⟨hs.1, hs.2.of_alone hsame⟩
  · exact fun _ _ s s' hsame hs => ⟨hs.1, hs.2.of_alone hsame⟩
  · rintro content c s hdecode - - ⟨hcontent, hs⟩
    exact ⟨trivial, ⟨⟨content, hcontent.symm, (decodeChange_eq_ok_iff.mp hdecode).1⟩,
      hs.1.active⟩, hs⟩
  · exact fun active s _ hs => stepped_of_stands hs.2
  · intro c active wallClock hne
    refine Protocol.does_of_known ?_
    rintro ⟨⟨content, hcontent, hdecode⟩, rfl⟩
    refine (does_apply_of_prepare
      (S := (Stands · { v with active := restamp wallClock v.active c })) (stable_stands v)
      (stable_stands _) (does_onLink covers_alone.toCoversLink (stable_stands v) _)
      ?_).mono (fun _ hs => hs) ?_
    · exact fun s _ _ hs => ⟨trivial, ⟨hs.1.lifecycle, hs.1.initial, rfl, hs.1.clock⟩, hs.2⟩
    · rintro (e | version) s - hs
      · exact hs
      · exact ⟨_, .applies hcontent hdecode hne wallClock, hs.2⟩

theorem proceeds_round : Proceeds i v (perform .round) := by
  have hhandle : (solo Request alone).Does i () (Stands · v) handleChange
      (succeeds fun _ => Stepped v) := by
    refine does_handleChange (fun _ => stable_stepped v) (stable_stands v) (stable_stepped v)
      does_reload_alone ?_ ?_
    · rintro version s - - ⟨v', hstep, hs⟩
      exact ⟨trivial, v', hstep, hs.of_alone rfl⟩
    · exact fun e s _ _ hs => ⟨trivial, stepped_of_stands (hs.of_alone rfl)⟩
  refine (does_round (stable_stands v) (stable_stands v) (stable_stepped v) (stable_stepped v)
    ?_ hhandle ?_).mono (fun _ hs => hs) ?_
  · exact fun s _ hs _ => ⟨trivial, hs.1.of_eq rfl rfl rfl rfl, hs.2.noticed⟩
  · rintro s - ⟨v', hstep, hs⟩
    exact ⟨trivial, v', hstep, hs.of_alone rfl⟩
  · rintro (e | u) s - hs
    · exact absurd hs id
    · exact hs

/-- Every request takes a server from where it stands. -/
theorem proceeds_perform (i : Request) (v : Standing) : Proceeds i v (perform i) := by
  cases i with
  | start => exact proceeds_start.followed fun _ => trivial
  | stop => exact proceeds_stop.followed fun _ => trivial
  | update user config => exact (proceeds_persist user config).holding.followed fun _ => trivial
  | edit user e => exact (proceeds_edit user e).followed fun _ => trivial
  | history => exact proceeds_history.followed fun _ => trivial
  | round => exact proceeds_round
  | allow ns bucket tokens maxWait =>
      exact proceeds_of_changes (covers_alone.changes_work rfl (by rintro ⟨⟩))
  | health => exact proceeds_of_changes (covers_alone.changes_work rfl (by rintro ⟨⟩))
  | sweep => exact proceeds_of_changes (covers_alone.changes_work rfl (by rintro ⟨⟩))

theorem stepped_of_endsAmid {r : Except QuotaError Reply} (hs : s.Stands v)
    (h : (work i).EndsAmid alone s r s') : Stepped v s' :=
  (proceeds_perform i v).of_endsAmid hs h

end Site

end TokenQuota
