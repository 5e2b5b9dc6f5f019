import TokenQuota.Proofs.Server.Changes

/-!
No change of the configuration is lost: whatever comes between the steps of those who ask for
changes, their requests take effect one after the other.
-/

namespace TokenQuota

namespace Site

namespace Changing

variable {s s' : Site} {initial : ServiceConfig}

theorem undisturbed {i : Request} {m : Option Unit} {a : Option (Except QuotaError Reply)}
    (hs : IsSound initial s) (h : s.Undisturbed s') (hheld : m = some () → Held s) :
    (rules initial).move i (m, a) (m, a) s s' ∧ (rules initial).rely (m, a) s s' :=
  aside (move_undisturbed hs h hheld) (leavesKept_of_undisturbed h) fun _ => h.archive

theorem keepsAlone_changing (i : Request) (a : Option (Except QuotaError Reply)) :
    KeepsAlone (rules initial) i (some (), a) Held :=
  keepsAlone_of_held (fun _ hinv => hinv) (fun _ _ h => h.2 () rfl)
    fun _ _ hs hinv h => undisturbed hinv h fun _ => hs

/-- What a caller knows when it is about to leave the lock: a failure has yet to be settled, while a
change took effect when it was kept. -/
def Tried (i : Request) (m : Option Unit × Option (Except QuotaError Reply))
    (r : Except QuotaError Unit) (s : Site) : Prop :=
  Held s ∧ match r with
    | .ok () => m = (some (), some (.ok .done))
    | .error e => m = (some (), none) ∧ ∃ c, s.latestConfig = .ok c ∧ attempt i c = .error e

theorem stable_tried (i : Request) (m : Option Unit × Option (Except QuotaError Reply))
    (r : Except QuotaError Unit) : (rules initial).Stable m (Tried i m r) := by
  rintro s s' h ⟨hs, hr⟩
  cases r with
  | ok u =>
      have hm : m = (some (), some (.ok .done)) := hr
      rw [hm] at h ⊢
      exact ⟨(h.2 () rfl).locked hs, rfl⟩
  | error e =>
      obtain ⟨hm, c, hc, hattempt⟩ := hr
      rw [hm] at h ⊢
      have hheld := h.2 () rfl
      refine ⟨hheld.locked hs, rfl, c, ?_, hattempt⟩
      rw [latestConfig_congr hheld.initial hheld.storage]
      exact hc

/-- A change takes effect when it is kept. -/
theorem move_keep {i : Request} (hadmin : isAdmin i = true) (hs : IsSound initial s)
    (hheld : Held s) {c c' : ServiceConfig} (hc : s.latestConfig = .ok c)
    (hattempt : attempt i c = .ok c') (wallClock : UInt64) (active : ServiceConfig) :
    (rules initial).move i (some (), none) (some (), some (.ok .done)) s
      (keepStamped wallClock active (userOf i) c' s) := by
  have hview : (keepStamped wallClock active (userOf i) c' s).keptConfig =
      some (c'.unstamped.signed (userOf i)) := keptConfig_putOnShelf hs.shelved _
  refine ⟨move_put hs hheld _, .answer hadmin ?_ ?_⟩
  · have hanswer := answer_of_attempt hadmin hc hattempt
    rw [hs.initial_eq, ← hview] at hanswer
    exact hanswer
  · rintro ⟨e, ⟨⟩⟩

theorem safe_admin {i : Request} (hadmin : isAdmin i = true) (s : Site) :
    (rules initial).Safe i (fun m r _ => isAdmin i = true → m.2 = some r) (work i) (none, none)
      s := by
  refine ((keepsAlone_changing i none).safe_admin hadmin (Q := Tried i)
    (R := fun m r _ => m = (none, some (r.map fun _ => .done))) (stable_tried i) ?_ ?_ ?_ ?_ ?_ ?_
    s).mono ?_
  · exact fun _ _ _ _ _ hm => hm
  · exact fun s hinv hfree => ⟨⟨move_take hinv hfree, .aside rfl fun _ => rfl⟩, rfl⟩
  · exact fun s c err _ hs hc hattempt => ⟨hs, rfl, c, hc, hattempt⟩
  · intro s c c' active wallClock hinv _ hs hc hattempt _ _
    exact ⟨_, move_keep hadmin hinv hs hc hattempt wallClock active, hs, rfl⟩
  · rintro m r s hinv ⟨hs, hr⟩
    cases r with
    | ok u =>
        have hm : m = (some (), some (.ok .done)) := hr
        rw [hm]
        exact ⟨(none, some (.ok .done)), ⟨move_leave hinv, .aside rfl fun _ => rfl⟩, rfl⟩
    | error e =>
        -- Nobody kept anything since the attempt, so it fails in the same way when it is settled.
        obtain ⟨hm, c, hc, hattempt⟩ := hr
        have hanswer := answer_of_attempt_error hadmin hc hattempt
        rw [hinv.initial_eq] at hanswer
        rw [hm]
        exact ⟨(none, some (.error e)),
          ⟨move_leave hinv, .answer hadmin hanswer fun _ _ => rfl⟩, rfl⟩
  · rintro m s s' rfl hinv _ h
    refine undisturbed hinv h ?_
    rintro ⟨⟩
  · rintro m r s _ ⟨u, rfl, rfl⟩ _
    rfl

theorem safe_work (r : Request) (s : Site) :
    (rules initial).Safe r (fun m result _ => isAdmin r = true → m.2 = some result) (work r)
      (none, none) s := by
  cases hadmin : isAdmin r with
  | true =>
      have hsafe : (rules initial).Safe r (fun m result _ => isAdmin r = true → m.2 = some result)
          (work r) (none, none) s := safe_admin hadmin s
      rwa [hadmin] at hsafe
  | false =>
      exact ((bystands hadmin).safe_work hadmin s).mono fun _ _ _ _ _ h => by cases h

end Changing

/-- Where nobody else keeps anything, no change is lost: in every run there is an order of the
requests for changes in which they answer what they would answer if they came one after the other,
and what is kept is what is left then. A request that fails has changed nothing in the archive. -/
theorem admin_order {s₀ : Site} {es : List (Event Site)}
    {p : Pool Request Site (Except QuotaError Reply)} (hfresh : s₀.IsFresh)
    (hshelved : s₀.IsShelved)
    (hkept : ∀ content, s₀.kept = some content → ∃ c, decode content = .ok c)
    (hrun : Pool.Run work Beyond s₀ es p) :
    (∃ order : List (Nat × Request × Except QuotaError Reply), (order.map Prod.fst).Nodup ∧
      (∀ n i r, (n, i, r) ∈ order → isAdmin i = true ∧ ∃ t, p.callers[n]? = some ⟨i, t⟩) ∧
      (∀ (n : Nat) (i : Request) (r : Except QuotaError Reply),
        p.callers[n]? = some ⟨i, .done r⟩ → isAdmin i = true → (n, i, r) ∈ order) ∧
      replay (answer s₀.server.initial) s₀.keptConfig (order.map fun c => c.2.1) =
        (order.map fun c => c.2.2, p.state.keptConfig)) ∧
    ∀ (n : Nat) (i : Request) (e : QuotaError), p.callers[n]? = some ⟨i, .done (.error e)⟩ →
      isAdmin i = true → ∀ c ∈ Pool.changesOf n es, c.2.archive = c.1.archive := by
  have houtside : ∀ s s' : Site, IsSound s₀.server.initial s → s.Beyond s' →
      IsSound s₀.server.initial s' ∧ s'.keptConfig = s.keptConfig ∧
        ∀ _ : Unit, s.server.locked = true → s.LockHeld s' := by
    intro s s' hs h
    have hleaves := leavesKept_of_undisturbed (.of_beyond h)
    refine ⟨isSound_of_leavesKept hs hleaves ?_, keptConfig_congr hleaves.storage,
      fun _ _ => hleaves.lockHeld⟩
    rw [activeConfig, h.server]
    exact hs.unkept
  obtain ⟨horder, hquiet⟩ := Ledger.linear_of_run (L := changes s₀.server.initial) houtside
    Changing.safe_work (isSound_of_isFresh hfresh hshelved hkept) hrun fun _ _ => trivial
  refine ⟨horder, ?_⟩
  intro n i e hn hadmin c hc
  exact hquiet n i (.error e) hn hadmin ⟨e, rfl⟩ c hc hadmin

/-- A namespace is added, and then one is to be deleted that is not there: the first request takes
effect and the second one has none. -/
theorem admin_order_refused :
    let added := ((work (.edit "alice" (.addNamespace (.ofName "a")))).run (fun _ s => s)
      (fresh (.ofStorage (.shelf .empty)))).2
    let s := ((work (.edit "bob" (.deleteNamespace "b"))).run (fun _ s => s) added).2
    s.keptConfig = some ⟨0, 0, "alice", none, NameMap.insert ∅ "a" (.ofName "a")⟩ ∧
      ∃ (es : List (Event Site)) (order : List (Nat × Request × Except QuotaError Reply))
        (e : QuotaError),
        replay (answer .empty) none (order.map fun c => c.2.1) =
          (order.map fun c => c.2.2, s.keptConfig) ∧
        (1, .edit "bob" (.deleteNamespace "b"), .error e) ∈ order ∧
        ∀ c ∈ Pool.changesOf 1 es, c.2.archive = c.1.archive := by
  intro added s
  have hends₁ : ((work (.edit "alice" (.addNamespace (.ofName "a")))).run (fun _ s => s)
      (fresh (.ofStorage (.shelf .empty)))).1.isSome = true := by
    decide +kernel
  have h₀ : Pool.Run work Beyond (fresh (.ofStorage (.shelf .empty))) []
      ⟨fresh (.ofStorage (.shelf .empty)), []⟩ := .start
  obtain ⟨es₁, r₁, h₁, -⟩ := h₀.joinAndFinish _ hends₁
  have hends₂ : ((work (.edit "bob" (.deleteNamespace "b"))).run (fun _ s => s) added).1.isSome =
      true := by
    decide +kernel
  obtain ⟨es₂, r₂, h₂, hresult, -⟩ := h₁.joinAndFinish (.edit "bob" (.deleteNamespace "b")) hends₂
  have hfailed : ((work (.edit "bob" (.deleteNamespace "b"))).run (fun _ s => s) added).1.map
      Except.isOk = some false := by
    decide +kernel
  have hanswer : Except.isOk r₂ = false := by
    rw [show ((work (.edit "bob" (.deleteNamespace "b"))).run (fun _ s => s) added).1 = some r₂
      from hresult] at hfailed
    exact Option.some.inj hfailed
  have hkept : ∀ content, (fresh (.ofStorage (.shelf .empty))).kept = some content →
      ∃ c, decode content = .ok c := by
    rintro content ⟨⟩
  have hshelved : (fresh (.ofStorage (.shelf .empty))).IsShelved := rfl
  obtain ⟨⟨order, -, -, hdone, hreplay⟩, hquiet⟩ :=
    admin_order (isFresh_fresh _) hshelved hkept h₂
  refine ⟨by decide +kernel, es₂, order, ?_⟩
  cases r₂ with
  | ok reply => cases hanswer
  | error e => exact ⟨e, hreplay, hdone 1 _ _ rfl rfl, hquiet 1 _ e rfl rfl⟩

end Site

end TokenQuota
