import TokenQuota.Proofs.Task.Pool

/-!
Sessions on one state, one after the other. A session may be left between any two steps of its
callers, who are gone then. What the next one finds is what is not lost in between.
-/

namespace TokenQuota

/-- What happens from the start of a session on. -/
structure Session (ι σ α : Type) where
  start : σ
  events : List (Event σ)
  pool : Pool ι σ α

namespace Session

variable {ι σ α κ : Type} (work : ι → Task σ α) (outside between : σ → σ → Prop) (s₀ : σ)

/-- The sessions that were left, and the one that goes on. -/
inductive Row : List (Session ι σ α) → Session ι σ α → Prop
  | first {es : List (Event σ)} {p : Pool ι σ α} (h : Pool.Run work outside s₀ es p) :
      Row [] ⟨s₀, es, p⟩
  | next {past : List (Session ι σ α)} {x : Session ι σ α} (h : Row past x) {s : σ}
      (hs : between x.pool.state s) {es : List (Event σ)} {p : Pool ι σ α}
      (hrun : Pool.Run work outside s es p) : Row (past ++ [x]) ⟨s, es, p⟩

variable {work outside between s₀} {past : List (Session ι σ α)} {x : Session ι σ α}

/-- What a session makes of what was recorded before it and of the state, and what is not lost
between two sessions, holds all the time. -/
theorem Row.kept {A : Session ι σ α → Prop} {K : List κ → σ → Prop} {f : Session ι σ α → List κ}
    (h : Row work outside between s₀ past x) (hA : ∀ y ∈ past ++ [x], A y) (hstart : K [] s₀)
    (hrun : ∀ l y, A y → K l y.start → Pool.Run work outside y.start y.events y.pool →
      K (l ++ f y) y.pool.state)
    (hbetween : ∀ l s s', K l s → between s s' → K l s') :
    (∀ y ∈ past ++ [x], (∃ l, K l y.start) ∧ Pool.Run work outside y.start y.events y.pool) ∧
      K ((past ++ [x]).flatMap f) x.pool.state := by
  induction h with
  | first hfirst =>
      have hx := hA _ (List.mem_singleton_self _)
      constructor
      · intro y hy
        cases List.mem_singleton.mp hy
        exact ⟨⟨[], hstart⟩, hfirst⟩
      · rw [List.nil_append, List.flatMap_singleton]
        exact hrun [] _ hx hstart hfirst
  | next h hs hnext ih =>
      rw [List.forall_mem_append] at hA
      obtain ⟨hpast, hlast⟩ := ih hA.1
      have hbegin := hbetween _ _ _ hlast hs
      constructor
      · intro y hy
        rcases List.mem_append.mp hy with hy | hy
        · exact hpast y hy
        · cases List.mem_singleton.mp hy
          exact ⟨⟨_, hbegin⟩, hnext⟩
      · rw [List.flatMap_append, List.flatMap_singleton]
        exact hrun _ _ (hA.2 _ List.mem_cons_self) hbegin hnext

/-- A session with one caller, who comes to the end of its activity before anything else
happens. -/
theorem exists_alone (work : ι → Task σ α) (outside : σ → σ → Prop) (i : ι) {s : σ} {a : α}
    (h : ((work i).run (fun _ s => s) s).1 = some a) :
    ∃ es, Pool.Run work outside s es ⟨((work i).run (fun _ s => s) s).2, [⟨i, .done a⟩]⟩ ∧
      es.map Event.before = (work i).visits s ∧ ∀ e ∈ es, e.caller = 0 := by
  have hstart : Pool.Run work outside s [] ⟨s, []⟩ := .start
  obtain ⟨es, b, hrun, hresult, hvisits⟩ := hstart.joinAndFinish i (by rw [h]; rfl)
  obtain rfl := Option.some.inj (h.symm.trans hresult)
  refine ⟨es, hrun, hvisits, fun e he => ?_⟩
  have hlt : e.caller < 1 := hrun.caller_lt e he
  omega

end Session

end TokenQuota
