import TokenQuota.Proofs.Server.Charging
import TokenQuota.Proofs.Server.Stages
import TokenQuota.Proofs.Stats.Counting
import TokenQuota.Proofs.Task.Trails

/-!
What the callers of a server count. A request for tokens that is answered is counted once if its
bucket is a dynamic one, the counts of a namespace are forgotten once it was deleted, and nobody
else touches the counts.
-/

namespace TokenQuota

namespace Site

/-- What a step for a caller amounts to: it finds the bucket of a name, or changes the counts. -/
inductive CountMark
  | found (ns bucket : String) (b : Bucket)
  | counted (e : Stats.Event)
deriving DecidableEq

def CountMark.event? : CountMark → Option Stats.Event
  | found .. => none
  | counted e => some e

/-- A step leaves the counts alone, unless its mark is that it changes them. -/
def Amounts (s s' : Site) : Option CountMark → Prop
  | none => s'.server.stats = s.server.stats
  | some (.found ns bucket b) =>
    s'.server.stats = s.server.stats ∧
      (s.server.active.buckets.find ns bucket s.roster).1 = some b
  | some (.counted e) => s'.server.stats = e.apply s.server.stats

/-- The marks of a request that has come to its end. -/
inductive Leaves : Request → List CountMark → Except QuotaError Reply → Prop
  /-- The request is answered, and counted if its bucket is a dynamic one. -/
  | answered {ns bucket : String} {tokens : Int} {maxWait : Nat} (b : Bucket) (v : Verdict) :
      Leaves (.allow ns bucket tokens maxWait)
        (.found ns bucket b ::
          if b.dynamic then [.counted (.record ns bucket v.admitted)] else [])
        (.ok (.verdict v))
  /-- There is no bucket for the request. -/
  | refused {ns bucket : String} {tokens : Int} {maxWait : Nat} (e : QuotaError) :
      Leaves (.allow ns bucket tokens maxWait) [] (.error e)
  /-- The store does not answer. -/
  | unanswered {ns bucket : String} {tokens : Int} {maxWait : Nat} (b : Bucket) (e : QuotaError) :
      Leaves (.allow ns bucket tokens maxWait) [.found ns bucket b] (.error e)
  | deleted {user ns : String} (reply : Reply) :
      Leaves (.edit user (.deleteNamespace ns)) [.counted (.reset ns)] (.ok reply)
  | kept {user ns : String} (e : QuotaError) :
      Leaves (.edit user (.deleteNamespace ns)) [] (.error e)
  | aside {r : Request} (hallow : ∀ ns bucket tokens maxWait, r ≠ .allow ns bucket tokens maxWait)
      (hdelete : ∀ user ns, r ≠ .edit user (.deleteNamespace ns))
      (result : Except QuotaError Reply) : Leaves r [] result

/-- The counts are the same. -/
def SameStats (s s' : Site) : Prop := s'.server.stats = s.server.stats

variable {s s' : Site}

theorem coversLink_sameStats : CoversLink SameStats := ⟨fun _ _ => rfl⟩

theorem coversArchive_sameStats : CoversArchive SameStats :=
  ⟨fun _ => rfl, fun _ _ => rfl, fun _ _ => rfl, fun _ _ => rfl⟩

theorem coversApplying_sameStats : CoversApplying SameStats :=
  ⟨coversArchive_sameStats, coversLink_sameStats, fun _ _ => rfl, fun _ _ => rfl⟩

theorem sameStats_transition (source target : Lifecycle) (s : Site) :
    s.SameStats (transition source target s).2 := by
  unfold transition
  split <;> rfl

theorem sameStats_start : start.run.Changes SameStats := by
  refine Action.changes_bind (Task.changes_atOnce (sameStats_transition _ _)) fun _ => ?_
  refine Action.changes_bind
    (Action.changes_outcome coversApplying_sameStats.changes_loadFirst) fun r => ?_
  cases r with
  | error e =>
      exact Action.changes_bind (Action.changes_ofTask (Task.changes_modify fun _ => rfl))
        fun _ => trivial
  | ok u => exact Task.changes_atOnce fun s => sameStats_transition .starting .started _

theorem sameStats_stop : stop.run.Changes SameStats := by
  refine Action.changes_bind (Task.changes_atOnce (sameStats_transition _ _)) fun _ => ?_
  refine Action.changes_bind (Action.changes_ofTask (Task.changes_await fun _ _ => rfl)) fun _ => ?_
  exact coversLink_sameStats.changes_onLink _

theorem sameStats_reloadOnce : reloadOnce.run.Changes SameStats := by
  refine Action.changes_bind (Action.changes_ofTask (Task.changes_await fun _ _ => rfl)) fun _ => ?_
  refine Action.changes_bind coversApplying_sameStats.changes_handleChange fun _ => ?_
  exact Action.changes_ofTask (Task.changes_modify fun _ => rfl)

/-- Only requests for tokens and the deletion of namespaces touch the counts. -/
theorem sameStats_work {r : Request}
    (hallow : ∀ ns bucket tokens maxWait, r ≠ .allow ns bucket tokens maxWait)
    (hdelete : ∀ user ns, r ≠ .edit user (.deleteNamespace ns)) : (work r).Changes SameStats := by
  cases r with
  | start => exact Action.changes_bind sameStats_start fun _ => trivial
  | stop => exact Action.changes_bind sameStats_stop fun _ => trivial
  | allow ns bucket tokens maxWait => exact absurd rfl (hallow ns bucket tokens maxWait)
  | update user config =>
      exact Action.changes_bind (coversArchive_sameStats.changes_updateConfig user config)
        fun _ => trivial
  | edit user e =>
      refine Action.changes_bind (Action.changes_bind
        (coversArchive_sameStats.changes_change user e) fun _ => ?_) fun _ => trivial
      cases e with
      | deleteNamespace ns => exact absurd rfl (hdelete user ns)
      | _ => exact trivial
  | history => exact Action.changes_bind coversArchive_sameStats.changes_history fun _ => trivial
  | health => exact Action.changes_bind (coversLink_sameStats.changes_onLink _) fun _ => trivial
  | sweep =>
      exact Action.changes_bind (Action.changes_ofTask (Task.changes_atOnce fun _ => rfl))
        fun _ => trivial
  | round => exact Action.changes_bind sameStats_reloadOnce fun _ => trivial

theorem sameStats_sweeps (count : Nat) (s : Site) : s.SameStats (sweeps count s) := by
  induction count generalizing s with
  | zero => rfl
  | succ count ih => exact (ih s.sweep.2).trans rfl

/-- Neither what happens around a server nor time that goes by touches the counts. -/
theorem Meanwhile.sameStats (h : s.Meanwhile s') : s.SameStats s' := by
  cases h with
  | around hserver => exact congrArg Server.stats hserver
  | elapse millis =>
      unfold Site.elapse
      split
      · rfl
      · exact sameStats_sweeps _ s

theorem exists_leaves (i : Request) : ∃ marks result, Leaves i marks result := by
  by_cases hallow : ∃ ns bucket tokens maxWait, i = .allow ns bucket tokens maxWait
  · obtain ⟨ns, bucket, tokens, maxWait, rfl⟩ := hallow
    exact ⟨_, _, .refused (.quotaExceeded ns bucket)⟩
  · by_cases hdelete : ∃ user ns, i = .edit user (.deleteNamespace ns)
    · obtain ⟨user, ns, rfl⟩ := hdelete
      exact ⟨_, _, .deleted .done⟩
    · exact ⟨_, _, .aside (by simpa using hallow) (by simpa using hdelete) (.ok .done)⟩

/-- The marks so far are the first of those that a request may leave. -/
def Begins (i : Request) (marks : List CountMark) : Prop :=
  ∃ whole result, Leaves i whole result ∧ marks <+: whole

theorem begins_nil (i : Request) : Begins i [] := by
  obtain ⟨marks, result, h⟩ := exists_leaves i
  exact ⟨marks, result, h, List.nil_prefix⟩

theorem Leaves.begins {i : Request} {marks : List CountMark} {result : Except QuotaError Reply}
    (h : Leaves i marks result) : Begins i marks :=
  ⟨marks, result, h, List.prefix_refl marks⟩

/-- The marks of callers that count requests. -/
def countTrail : Trail Request Empty Site CountMark where
  duties := .nothing Site
  Amounts := Amounts
  Allows := Begins
  allows_nil := begins_nil
  Grows _ _ := True
  grows_refl _ := trivial
  grows_trans _ _ := trivial

variable {i : Request} {marks : List CountMark}

theorem move_counting {mark : Option CountMark} (hamounts : Amounts s s' mark)
    (hbegins : Begins i (marks ++ mark.toList)) :
    countTrail.protocol.move i (none, marks) (none, marks ++ mark.toList) s s' :=
  ⟨Duties.move_nothing none s s', trivial, mark, hamounts, rfl, hbegins⟩

theorem safe_sameStats {α : Type} {t : Task Site α} (ht : t.Changes SameStats)
    (hbegins : Begins i marks) :
    countTrail.protocol.Safe i (fun m _ _ => m = (none, marks)) t (none, marks) s := by
  have hsafe := Protocol.safe_of_changes (P := countTrail.protocol) (i := i) (m := (none, marks))
    (s := s) ht ?_
  · exact hsafe.mono fun m _ _ _ h => h.1
  · intro s₁ s₂ _ _ _ hsame
    have hmark : Amounts s₁ s₂ none := hsame
    have hmove := move_counting (i := i) hmark ((List.append_nil marks).symm ▸ hbegins)
    rw [Option.toList_none, List.append_nil] at hmove
    exact ⟨hmove, trivial, nofun⟩

theorem safe_accept (ns bucket : String) (tokens : Int) (maxWait : Nat) (s : Site) :
    countTrail.protocol.Safe (.allow ns bucket tokens maxWait)
      (fun m r _ => match r with
        | .ok b => m = (none, [.found ns bucket b])
        | .error _ => m = (none, []))
      (Action.atOnce (accept ns bucket tokens) : Work Bucket).run (none, []) s := by
  refine Protocol.safe_atOnce fun s₁ _ _ _ => ?_
  obtain ⟨-, hstats, hfound⟩ := accept_spec ns bucket tokens s₁
  cases haccept : (accept ns bucket tokens s₁).1 with
  | error e =>
      have hmark : Amounts s₁ (accept ns bucket tokens s₁).2 none := hstats
      exact ⟨_, move_counting hmark (begins_nil _), fun _ _ _ => rfl⟩
  | ok b =>
      have hmark : Amounts s₁ (accept ns bucket tokens s₁).2 (some (.found ns bucket b)) :=
        ⟨hstats, hfound b haccept⟩
      exact ⟨_, move_counting hmark (Leaves.unanswered b (.quotaExceeded ns bucket)).begins,
        fun _ _ _ => rfl⟩

/-- A request that is answered is counted if its bucket is a dynamic one. -/
theorem safe_count {ns bucket : String} {tokens : Int} {maxWait : Nat} (b : Bucket) (v : Verdict)
    (s : Site) :
    countTrail.protocol.Safe (.allow ns bucket tokens maxWait)
      (fun m r _ => Leaves (.allow ns bucket tokens maxWait) m.2 (r.map .verdict))
      (do
        if b.dynamic then
          Action.modify fun s =>
            { s with server.stats := s.server.stats.record ns bucket v.admitted }
        return v : Work Verdict).run (none, [.found ns bucket b]) s := by
  have hleaves : Leaves (.allow ns bucket tokens maxWait) _ (.ok (.verdict v)) := .answered b v
  cases hdynamic : b.dynamic with
  | false =>
      rw [hdynamic] at hleaves
      exact fun _ _ _ => hleaves
  | true =>
      rw [hdynamic] at hleaves
      intro s₁ _ _ _ _
      have hmark : Amounts s₁
          { s₁ with server.stats := s₁.server.stats.record ns bucket v.admitted }
          (some (.counted (.record ns bucket v.admitted))) := rfl
      exact ⟨_, move_counting hmark hleaves.begins, fun _ _ _ => hleaves⟩

theorem safe_allow (ns bucket : String) (tokens : Int) (maxWait : Nat) (s : Site) :
    countTrail.protocol.Safe (.allow ns bucket tokens maxWait)
      (fun m r _ => Leaves (.allow ns bucket tokens maxWait) m.2 (r.map .verdict))
      (allow ns bucket tokens maxWait).run (none, []) s := by
  refine (safe_accept ns bucket tokens maxWait s).bind ?_ ?_
  · rintro m b s₁ - rfl
    have hunanswered : ∀ e, Leaves (.allow ns bucket tokens maxWait) [.found ns bucket b]
        (.error e) := .unanswered b
    have hbegins := (hunanswered (.quotaExceeded ns bucket)).begins
    refine (safe_sameStats (coversArchive_sameStats.changes_read _) hbegins).bind ?_ ?_
    · rintro m retry s₂ - rfl
      refine (safe_sameStats (coversLink_sameStats.changes_onLink _) hbegins).bind ?_ ?_
      · rintro m v s₃ - rfl
        exact safe_count b v s₃
      · rintro m e s₃ - rfl
        exact hunanswered e
    · rintro m e s₂ - rfl
      exact hunanswered e
  · rintro m e s₁ - rfl
    exact .refused e

theorem safe_delete (user ns : String) (s : Site) :
    countTrail.protocol.Safe (.edit user (.deleteNamespace ns))
      (fun m r _ => Leaves (.edit user (.deleteNamespace ns)) m.2 (r.map fun _ => .done))
      (edit user (.deleteNamespace ns)).run (none, []) s := by
  refine (safe_sameStats (coversArchive_sameStats.changes_change user _) (begins_nil _)).bind ?_ ?_
  · rintro m u s₁ - rfl
    intro s₂ _ _ _ _
    have hmark : Amounts s₂ { s₂ with server.stats := s₂.server.stats.reset ns }
        (some (.counted (.reset ns))) := rfl
    exact ⟨_, move_counting hmark (Leaves.deleted .done).begins, fun _ _ _ => .deleted .done⟩
  · rintro m e s₁ - rfl
    exact .kept e

theorem safe_counting (i : Request) (s : Site) :
    countTrail.protocol.Safe i (fun m r _ => Leaves i m.2 r) (work i) (none, []) s := by
  by_cases hallow : ∃ ns bucket tokens maxWait, i = .allow ns bucket tokens maxWait
  · obtain ⟨ns, bucket, tokens, maxWait, rfl⟩ := hallow
    exact (safe_allow ns bucket tokens maxWait s).bind (fun _ _ _ _ h _ _ _ => h)
      fun _ _ _ _ h => h
  · by_cases hdelete : ∃ user ns, i = .edit user (.deleteNamespace ns)
    · obtain ⟨user, ns, rfl⟩ := hdelete
      exact (safe_delete user ns s).bind (fun _ _ _ _ h _ _ _ => h) fun _ _ _ _ h => h
    · have hallow' : ∀ ns bucket tokens maxWait, i ≠ .allow ns bucket tokens maxWait := by
        simpa using hallow
      have hdelete' : ∀ user ns, i ≠ .edit user (.deleteNamespace ns) := by simpa using hdelete
      refine (safe_sameStats (sameStats_work hallow' hdelete') (begins_nil i)).mono ?_
      rintro m r _ - rfl
      exact .aside hallow' hdelete' r

/-- The changes of the counts along a run, in their order: every caller makes those that its request
may make, and all of them once it has come to its end. -/
def Counted (es : List (Event Site)) (p : Pool Request Site (Except QuotaError Reply))
    (events : List Stats.Event) : Prop :=
  ∃ l : List (Event Site × Option CountMark), l.map Prod.fst = es ∧
    (∀ c ∈ l, Amounts c.1.before c.1.after c.2) ∧
    (∀ n i t, p.callers[n]? = some ⟨i, t⟩ → Begins i (Trail.marksOf n l) ∧
      ∀ r, t = .done r → Leaves i (Trail.marksOf n l) r) ∧
    events = (l.filterMap Prod.snd).filterMap CountMark.event?

/-- The counts are those of the changes among the marks. -/
def HoldsCountsOf (marks : List CountMark) (s : Site) : Prop :=
  s.server.stats = Stats.after (marks.filterMap CountMark.event?)

theorem holdsCountsOf_nil (hfresh : s.IsFresh) : HoldsCountsOf [] s := by
  obtain ⟨initial, sweepMillis, retry, since, hserver⟩ := hfresh
  rw [HoldsCountsOf, hserver]
  rfl

theorem HoldsCountsOf.step {mark : Option CountMark} (h : HoldsCountsOf marks s)
    (hamounts : Amounts s s' mark) : HoldsCountsOf (marks ++ mark.toList) s' := by
  rw [HoldsCountsOf] at h ⊢
  rw [List.filterMap_append]
  match mark, hamounts with
  | none, hsame =>
      rw [hsame, h]
      simp
  | some (.found ns bucket b), ⟨hsame, _⟩ =>
      rw [hsame, h]
      simp [List.filterMap_cons, CountMark.event?]
  | some (.counted event), hcounted =>
      rw [hcounted, h]
      simp [CountMark.event?]

/-- The counts of a server that was made afresh are those of the changes that its callers made. -/
theorem counted_of_run {s₀ : Site} {es : List (Event Site)}
    {p : Pool Request Site (Except QuotaError Reply)} (hfresh : s₀.IsFresh)
    (hrun : Pool.Run work Meanwhile s₀ es p) :
    ∃ events, Counted es p events ∧ p.state.server.stats = Stats.after events := by
  obtain ⟨-, l, hl, hamounts, hmarks⟩ := Trail.marks_of_run (T := countTrail)
    (A := fun _ => True) (R := Leaves) (fun _ _ _ _ => ⟨trivial, trivial, nofun⟩)
    (fun i s _ => safe_counting i s) trivial hrun (fun _ _ => trivial) fun _ _ => trivial
  refine ⟨_, ⟨l, hl, fun c hc => (hamounts c hc).2, hmarks, rfl⟩, ?_⟩
  exact hrun.kept_along_marks hl (holdsCountsOf_nil hfresh)
    (fun c hc _ h => h.step (hamounts c hc).2) fun _ _ _ hs h => hs.sameStats.trans h

end Site

end TokenQuota
