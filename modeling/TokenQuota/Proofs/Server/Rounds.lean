import TokenQuota.Proofs.Server.Requests
import TokenQuota.Proofs.Store.Connections

/-!
One round of the loop that applies changes, step by step: it takes up a change, attempts to apply
it, reports what came of it, and waits again. An attempt that fails has changed nothing.
-/

namespace TokenQuota

/-- How the result of an attempt is reported. -/
def Outcome.ofResult : Except QuotaError UInt64 → Outcome
  | .ok version => .applied version
  | .error e => .failed e

namespace Site

open TokenQuota.Task (Ends)

/-- The loop takes up the changes that were signalled. -/
def takeUp (s : Site) : Site :=
  { s with archive := (Archive.notice s.archive).2, server.reloader := .busy }

/-- What came of the attempt is there for all to see. -/
def report (outcome : Outcome) (s : Site) : Site := { s with server.outcome := outcome }

/-- The loop waits again. -/
def leaveOff (s : Site) : Site := { s with server.reloader := .waiting }

/-- The changes of a round from its start to its end, with the result of the attempt. -/
structure IsRound (l : List (Site × Site)) (attempt : List (Site × Site))
    (r : Except QuotaError UInt64) : Prop where
  ends : Ends reload.run attempt r
  changes : ∃ s₁ s₂ s₃, mayReload s₁ = true ∧ l = (s₁, s₁.takeUp) ::
    (attempt ++ [(s₂, s₂.report (.ofResult r)), (s₃, s₃.leaveOff)])

theorem ends_handleChange {l : List (Site × Site)} {r : Except QuotaError Unit}
    (h : Ends handleChange.run l r) : r = .ok () ∧ ∃ attempt result s,
      Ends reload.run attempt result ∧ l = attempt ++ [(s, s.report (.ofResult result))] := by
  rcases Action.ends_bind h with ⟨result, attempt, l₂, rfl, houtcome, hpublish⟩ | ⟨e, -, houtcome⟩
  · obtain ⟨result', heq, hreload⟩ := Action.ends_outcome houtcome
    cases heq
    have hreport : Ends (publish (.ofResult result)).run l₂ r := by
      cases result with
      | ok version => exact hpublish
      | error e => exact hpublish
    obtain ⟨u, rfl, hmodify⟩ := Action.ends_ofTask hreport
    obtain ⟨s, rfl⟩ := Task.ends_modify hmodify
    exact ⟨rfl, attempt, result, s, hreload, rfl⟩
  · obtain ⟨r', heq, -⟩ := Action.ends_outcome houtcome
    cases heq

theorem ends_reloadOnce {l : List (Site × Site)} {r : Except QuotaError Unit}
    (h : Ends reloadOnce.run l r) : ∃ attempt result, IsRound l attempt result := by
  rcases Action.ends_bind h with ⟨u, l₁, l₂, rfl, htake, hrest⟩ | ⟨e, -, htake⟩
  · obtain ⟨v, -, hawait⟩ := Action.ends_ofTask htake
    obtain ⟨s₁, rfl, hready⟩ := Task.ends_await hawait
    rcases Action.ends_bind hrest with ⟨w, l₃, l₄, rfl, hhandle, hleave⟩ | ⟨e, -, hhandle⟩
    · obtain ⟨-, attempt, result, s₂, hreload, rfl⟩ := ends_handleChange hhandle
      obtain ⟨x, -, hmodify⟩ := Action.ends_ofTask hleave
      obtain ⟨s₃, rfl⟩ := Task.ends_modify hmodify
      refine ⟨attempt, result, hreload, s₁, s₂, s₃, hready, ?_⟩
      rw [List.append_assoc]
      rfl
    · cases (ends_handleChange hhandle).1
  · obtain ⟨v, heq, -⟩ := Action.ends_ofTask htake
    cases heq

theorem isRound_of_ends {l : List (Site × Site)} {r : Except QuotaError Reply}
    (h : Ends (work .round) l r) : ∃ attempt result, IsRound l attempt result := by
  rcases Action.ends_bind h with ⟨u, l₁, l₂, rfl, hround, hdone⟩ | ⟨e, -, hround⟩
  · obtain ⟨rfl, -⟩ := Task.ends_done hdone
    rw [List.append_nil]
    exact ends_reloadOnce hround
  · exact ends_reloadOnce hround

theorem ends_apply_error {config : ServiceConfig} {l : List (Site × Site)} {e : QuotaError}
    (h : Ends (apply config).run l (.error e)) :
    ∃ e', e = .configApply e'.message ∧ Ends (onLink (Link.prepare config)).run l (.error e') := by
  rcases Action.ends_bind h with ⟨r, l₁, l₂, rfl, houtcome, hrest⟩ | ⟨e', -, houtcome⟩
  · obtain ⟨r', heq, hprepare⟩ := Action.ends_outcome houtcome
    cases heq
    cases r with
    | error e' =>
        obtain ⟨rfl, heq⟩ := Task.ends_done hrest
        cases heq
        rw [List.append_nil]
        exact ⟨e', rfl, hprepare⟩
    | ok u =>
        rcases Action.ends_bind hrest with ⟨v, l₃, l₄, -, -, hdone⟩ | ⟨e', -, hmodify⟩
        · obtain ⟨-, heq⟩ := Task.ends_done hdone
          cases heq
        · obtain ⟨v, heq, -⟩ := Action.ends_ofTask hmodify
          cases heq
  · obtain ⟨r', heq, -⟩ := Action.ends_outcome houtcome
    cases heq

theorem ends_apply_ok {config : ServiceConfig} {l : List (Site × Site)} {v : UInt64}
    (h : Ends (apply config).run l (.ok v)) : ∃ prepare s, l = prepare ++ [(s, install config s)] ∧
      Ends (onLink (Link.prepare config)).run prepare (.ok ()) := by
  rcases Action.ends_bind h with ⟨r, l₁, l₂, rfl, houtcome, hrest⟩ | ⟨e, heq, -⟩
  · obtain ⟨r', heq, hprepare⟩ := Action.ends_outcome houtcome
    cases heq
    cases r with
    | error e =>
        obtain ⟨-, heq⟩ := Task.ends_done hrest
        cases heq
    | ok u =>
        rcases Action.ends_bind hrest with ⟨u', l₃, l₄, rfl, hmodify, hdone⟩ | ⟨e, heq, -⟩
        · obtain ⟨u'', -, hinstall⟩ := Action.ends_ofTask hmodify
          obtain ⟨s, rfl⟩ := Task.ends_modify hinstall
          obtain ⟨rfl, -⟩ := Task.ends_done hdone
          rw [List.append_nil]
          exact ⟨l₁, s, rfl, hprepare⟩
        · cases heq
  · cases heq

/-- The active configuration with its buckets is the same, and so are the cells in the store. -/
structure Unapplied (s s' : Site) : Prop where
  active : s'.server.active = s.server.active
  cells : s'.link.backend.store.cells = s.link.backend.store.cells

theorem covers_unapplied : Covers Unapplied :=
  ⟨⟨fun _ => ⟨rfl, rfl⟩, fun _ _ => ⟨rfl, rfl⟩, fun _ _ => ⟨rfl, rfl⟩, fun _ _ => ⟨rfl, rfl⟩⟩,
    fun _ _ => ⟨rfl, rfl⟩⟩

theorem unapplied_of_ends_prepare {config : ServiceConfig} {l : List (Site × Site)}
    {e : QuotaError} (h : Ends (onLink (Link.prepare config)).run l (.error e)) :
    ∀ c ∈ l, Unapplied c.1 c.2 := by
  obtain ⟨parts, rfl, hprepare⟩ := Task.ends_onPart h
  intro c hc
  obtain ⟨part, hpart, rfl⟩ := List.mem_map.mp hc
  have hcells : part.1.link.KeepsCells part.2 :=
    Link.keepsCells_of_ends_prepare hprepare _ (List.mem_map.mpr ⟨part, hpart, rfl⟩)
  exact ⟨rfl, hcells⟩

/-- Why an attempt failed: nothing could be read, what was read is no well-formed configuration,
or the store could not be prepared for it. -/
inductive Cause (attempt : List (Site × Site)) (e : QuotaError) : Prop
  | unread (h : Ends readArchive.run attempt (.error e))
  | nothing (h : Ends readArchive.run attempt (.ok none))
  | illFormed (content : Bytes) (h : Ends readArchive.run attempt (.ok (some content)))
      (hdecode : decodeChange content = .error e)
  | unprepared (config : ServiceConfig) (before prepare : List (Site × Site)) (e' : QuotaError)
      (h : Ends (onLink (Link.prepare config)).run prepare (.error e'))
      (hbefore : ∀ c ∈ before, Unapplied c.1 c.2)
      (hattempt : attempt = before ++ prepare) (he : e = .configApply e'.message)

/-- The attempt failed because the store could not be prepared for a configuration. -/
def IsUnprepared (attempt : List (Site × Site)) (e : QuotaError) : Prop :=
  ∃ config before prepare e', attempt = before ++ prepare ∧
    Ends (onLink (Link.prepare config)).run prepare (.error e') ∧ e = .configApply e'.message

/-- The courses that an attempt may take: it finds nothing that it could apply, or that there is
nothing to do, or it applies a configuration, whatever comes of that. -/
inductive Course (attempt : List (Site × Site)) : Except QuotaError UInt64 → Prop
  | unread {e : QuotaError} (h : Ends readArchive.run attempt (.error e)) :
      Course attempt (.error e)
  | nothing {e : QuotaError} (h : Ends readArchive.run attempt (.ok none)) :
      Course attempt (.error e)
  | illFormed {content : Bytes} {e : QuotaError}
      (h : Ends readArchive.run attempt (.ok (some content)))
      (hdecode : decodeChange content = .error e) : Course attempt (.error e)
  | unchanged {v : UInt64} (h : ∀ c ∈ attempt, Unapplied c.1 c.2) : Course attempt (.ok v)
  | applying {config : ServiceConfig} {before rest : List (Site × Site)}
      {r : Except QuotaError UInt64} (hattempt : attempt = before ++ rest)
      (hbefore : ∀ c ∈ before, Unapplied c.1 c.2) (h : Ends (apply config).run rest r) :
      Course attempt r

theorem course_of_ends {attempt : List (Site × Site)} {r : Except QuotaError UInt64}
    (h : Ends reload.run attempt r) : Course attempt r := by
  rcases Action.ends_bind h with ⟨content, l₁, l₂, rfl, hread, hrest⟩ | ⟨e, rfl, hread⟩
  · cases content with
    | none =>
        obtain ⟨rfl, rfl⟩ := Task.ends_done hrest
        rw [List.append_nil]
        exact .nothing hread
    | some content =>
        rcases Action.ends_bind hrest with ⟨config, l₃, l₄, rfl, hdecode, hcompare⟩ |
          ⟨e, rfl, hdecode⟩
        · obtain ⟨rfl, -⟩ := Action.ends_ofExcept hdecode
          rcases Action.ends_bind hcompare with ⟨now, l₅, l₆, rfl, hnow, hlast⟩ | ⟨e, -, hnow⟩
          · have hbefore : ∀ c ∈ l₁ ++ l₅, Unapplied c.1 c.2 := by
              intro c hc
              rcases List.mem_append.mp hc with hc | hc
              · exact covers_unapplied.changes_readArchive.of_steps hread c hc
              · exact (covers_unapplied.changes_read _).of_steps hnow c hc
            have happly : Ends (if config = now.1 then pure now.1.version
                else apply (restamp now.2 now.1 config) : Work UInt64).run l₆ r := hlast
            rw [List.nil_append, ← List.append_assoc]
            split at happly
            · obtain ⟨rfl, rfl⟩ := Task.ends_done happly
              rw [List.append_nil]
              exact .unchanged hbefore
            · exact .applying rfl hbefore happly
          · obtain ⟨v, heq, -⟩ := Action.ends_ofTask hnow
            cases heq
        · obtain ⟨rfl, hresult⟩ := Action.ends_ofExcept hdecode
          rw [List.append_nil]
          exact .illFormed hread hresult.symm
  · exact .unread hread

theorem cause_of_ends {attempt : List (Site × Site)} {e : QuotaError}
    (h : Ends reload.run attempt (.error e)) : Cause attempt e := by
  cases course_of_ends h with
  | unread h => exact .unread h
  | nothing h => exact .nothing h
  | illFormed h hdecode => exact .illFormed _ h hdecode
  | applying hattempt hbefore happly =>
      obtain ⟨e', he, hprepare⟩ := ends_apply_error happly
      exact .unprepared _ _ _ e' hprepare hbefore hattempt he

theorem unapplied_of_error {attempt : List (Site × Site)} {e : QuotaError}
    (h : Ends reload.run attempt (.error e)) : ∀ c ∈ attempt, Unapplied c.1 c.2 := by
  cases cause_of_ends h with
  | unread h => exact covers_unapplied.changes_readArchive.of_steps h
  | nothing h => exact covers_unapplied.changes_readArchive.of_steps h
  | illFormed content h _ => exact covers_unapplied.changes_readArchive.of_steps h
  | unprepared config before prepare e' h hbefore hattempt he =>
      intro c hc
      rw [hattempt] at hc
      rcases List.mem_append.mp hc with hc | hc
      · exact hbefore c hc
      · exact unapplied_of_ends_prepare h c hc

theorem transition_of_eq {source target : Lifecycle} {s : Site}
    (h : s.server.lifecycle = source) :
    transition source target s = (.ok (), { s with server.lifecycle := target }) :=
  if_pos h

theorem transition_of_ne {source : Lifecycle} (target : Lifecycle) {s : Site}
    (h : s.server.lifecycle ≠ source) : ∃ e, transition source target s = (.error e, s) :=
  ⟨_, if_neg h⟩

theorem launch_eq {s : Site} (hs : s.server.lifecycle = .starting) : launch s =
    (.ok (), { s with
      server.reloader := .waiting
      server.sinceSweep := if s.server.sweepMillis = 0 then none else some 0
      server.lifecycle := .started }) :=
  if_pos hs

end Site

end TokenQuota
