import Mathlib.Data.List.Induction
import TokenQuota.Proofs.Stats
import TokenQuota.Proofs.Stats.Ranking

/-!
The counts after any calls: those of the requests since the namespace was last reset. They do not
depend on the order of these requests, nor on what happens in other namespaces.
-/

namespace TokenQuota.Stats

/-- A call that changes the counts. -/
inductive Event where
  | record (ns bucket : String) (admitted : Bool)
  | reset (ns : String)
deriving DecidableEq

namespace Event

/-- The namespace that a call is about. -/
def ns : Event → String
  | .record ns _ _ => ns
  | .reset ns => ns

def apply (s : Stats) : Event → Stats
  | .record ns bucket admitted => s.record ns bucket admitted
  | .reset ns => s.reset ns

end Event

def after (events : List Event) : Stats :=
  events.foldl Event.apply empty

/-- The calls since a namespace was last reset. -/
def sinceReset (ns : String) (events : List Event) : List Event :=
  (events.reverse.takeWhile fun e => e ≠ .reset ns).reverse

/-- How many requests of a bucket were admitted, or rejected, since its namespace was last reset. -/
def counted (events : List Event) (ns bucket : String) (admitted : Bool) : Nat :=
  (sinceReset ns events).count (.record ns bucket admitted)

/-- A bucket without any requests has no counts. -/
def scoresOf (hits misses : Nat) : Option Scores :=
  if hits = 0 ∧ misses = 0 then none else some ⟨hits, misses⟩

/-- The same answers to all questions about a namespace. -/
structure SameAt (ns : String) (s s' : Stats) : Prop where
  scores : ∀ bucket, s.scores? ns bucket = s'.scores? ns bucket
  topHits : s.topHits ns = s'.topHits ns
  topMisses : s.topMisses ns = s'.topMisses ns

variable {ns bucket : String} {admitted : Bool} {events events' : List Event} {e : Event}

@[simp] theorem after_concat : after (events ++ [e]) = e.apply (after events) := by
  simp [after]

theorem sinceReset_concat_reset : sinceReset ns (events ++ [.reset ns]) = [] := by
  simp [sinceReset]

theorem sinceReset_concat (h : e ≠ .reset ns) :
    sinceReset ns (events ++ [e]) = sinceReset ns events ++ [e] := by
  simp [sinceReset, h]

theorem sinceReset_append_of_mem (h : .reset ns ∈ events') :
    sinceReset ns (events ++ events') = sinceReset ns events' := by
  induction events' using List.reverseRecOn with
  | nil => cases h
  | append_singleton events' e ih =>
      rw [← List.append_assoc]
      by_cases he : e = .reset ns
      · rw [he, sinceReset_concat_reset, sinceReset_concat_reset]
      · have hmem : .reset ns ∈ events' :=
          (List.mem_append.mp h).resolve_right fun hlast => he (List.mem_singleton.mp hlast).symm
        rw [sinceReset_concat he, sinceReset_concat he, ih hmem]

theorem sinceReset_append_of_notMem (h : .reset ns ∉ events') :
    sinceReset ns (events ++ events') = sinceReset ns events ++ events' := by
  induction events' using List.reverseRecOn with
  | nil => rw [List.append_nil, List.append_nil]
  | append_singleton events' e ih =>
      rw [List.mem_append, not_or, List.mem_singleton] at h
      rw [← List.append_assoc, sinceReset_concat (Ne.symm h.2), ih h.1, List.append_assoc]

theorem sinceReset_filter :
    sinceReset ns (events.filter fun e => e.ns = ns) =
      (sinceReset ns events).filter fun e => e.ns = ns := by
  induction events using List.reverseRecOn with
  | nil => rfl
  | append_singleton events e ih =>
      rw [List.filter_append]
      by_cases he : e = .reset ns
      · have hns : [e].filter (fun e => e.ns = ns) = [.reset ns] := by simp [he, Event.ns]
        rw [hns, he, sinceReset_concat_reset, sinceReset_concat_reset, List.filter_nil]
      · rw [sinceReset_concat he, List.filter_append, ← ih]
        refine sinceReset_append_of_notMem fun hmem => he ?_
        exact (List.mem_singleton.mp (List.mem_of_mem_filter hmem)).symm

/-- Only calls about a namespace bear on its counts. -/
theorem counted_filter :
    counted (events.filter fun e => e.ns = ns) ns bucket admitted =
      counted events ns bucket admitted := by
  rw [counted, counted, sinceReset_filter]
  exact List.count_filter (decide_eq_true rfl)

/-- The order of the calls between two resets does not bear on the counts. -/
theorem counted_perm {before block block' rest : List Event} (h : block.Perm block')
    (hreset : .reset ns ∉ block) :
    counted (before ++ block ++ rest) ns bucket admitted =
      counted (before ++ block' ++ rest) ns bucket admitted := by
  have hreset' : .reset ns ∉ block' := fun hmem => hreset (h.mem_iff.mpr hmem)
  by_cases hrest : .reset ns ∈ rest
  · rw [counted, counted, sinceReset_append_of_mem hrest, sinceReset_append_of_mem hrest]
  · rw [counted, counted, sinceReset_append_of_notMem hrest, sinceReset_append_of_notMem hrest,
      sinceReset_append_of_notMem hreset, sinceReset_append_of_notMem hreset']
    exact ((h.append_left _).append_right rest).count_eq _

theorem scores?_record (s : Stats) (ns bucket ns' bucket' : String) (admitted : Bool) :
    (s.record ns bucket admitted).scores? ns' bucket' =
      if ns' = ns ∧ bucket' = bucket then
        some ⟨((s.scores? ns bucket).getD ⟨0, 0⟩).hits + admitted.toNat,
          ((s.scores? ns bucket).getD ⟨0, 0⟩).misses + (!admitted).toNat⟩
      else s.scores? ns' bucket' := by
  rw [scores?, ofNamespace_record]
  by_cases hns : ns' = ns
  · rw [if_pos hns, NameMap.get?_insert, hns]
    cases admitted with
    | true => simp [scores?]
    | false => simp [scores?]
  · rw [if_neg hns, if_neg fun h => hns h.1]
    rfl

theorem scores?_reset (s : Stats) (ns ns' bucket : String) :
    (s.reset ns).scores? ns' bucket = if ns' = ns then none else s.scores? ns' bucket := by
  rw [scores?, ofNamespace, reset, NameMap.get?_erase]
  split
  · rfl
  · rfl

theorem getD_scoresOf (hits misses : Nat) :
    (scoresOf hits misses).getD ⟨0, 0⟩ = ⟨hits, misses⟩ := by
  rw [scoresOf]
  split
  · rename_i h
    rw [h.1, h.2]
    rfl
  · rfl

theorem scores?_after (events : List Event) (ns bucket : String) :
    (after events).scores? ns bucket =
      scoresOf (counted events ns bucket true) (counted events ns bucket false) := by
  induction events using List.reverseRecOn with
  | nil => rfl
  | append_singleton events e ih =>
      rw [after_concat]
      cases e with
      | record ns' bucket' admitted =>
          have hne : Event.record ns' bucket' admitted ≠ .reset ns := nofun
          rw [Event.apply, scores?_record, counted, counted, sinceReset_concat hne,
            List.count_append, List.count_append]
          by_cases h : ns = ns' ∧ bucket = bucket'
          · obtain ⟨rfl, rfl⟩ := h
            rw [if_pos ⟨rfl, rfl⟩, ih, getD_scoresOf]
            cases admitted with
            | true => simp [scoresOf, counted]
            | false => simp [scoresOf, counted]
          · have hother (a : Bool) :
                [Event.record ns' bucket' admitted].count (.record ns bucket a) = 0 := by
              refine List.count_eq_zero.mpr fun hmem => h ?_
              cases List.mem_singleton.mp hmem
              exact ⟨rfl, rfl⟩
            rw [if_neg h, ih, hother, hother]
            rfl
      | reset ns' =>
          rw [Event.apply, scores?_reset]
          by_cases h : ns = ns'
          · rw [if_pos h, h, counted, counted, sinceReset_concat_reset]
            rfl
          · have hne : Event.reset ns' ≠ .reset ns := fun heq => h (Event.reset.inj heq).symm
            have hcount (a : Bool) : counted (events ++ [.reset ns']) ns bucket a =
                counted events ns bucket a := by
              rw [counted, sinceReset_concat hne, List.count_append]
              rfl
            rw [if_neg h, ih, hcount, hcount]

theorem map_scoresOf {count : Scores → Nat} (hcount : count ⟨0, 0⟩ = 0) (hits misses : Nat) :
    ((scoresOf hits misses).map count).getD 0 = count ⟨hits, misses⟩ := by
  rw [scoresOf]
  split
  · rename_i h
    rw [h.1, h.2]
    exact hcount.symm
  · rfl

theorem isTop_top (events : List Event) (ns : String) (count : Scores → Nat)
    (hcount : count ⟨0, 0⟩ = 0) :
    IsTop (fun bucket => count ⟨counted events ns bucket true, counted events ns bucket false⟩)
      ((after events).top ns count) := by
  have hin : countIn count ((after events).ofNamespace ns) = fun bucket =>
      count ⟨counted events ns bucket true, counted events ns bucket false⟩ := by
    funext bucket
    have hscores : ((after events).ofNamespace ns).get? bucket = _ := scores?_after events ns bucket
    rw [countIn, hscores, map_scoresOf hcount]
  exact hin ▸ isTop_ranking ((after events).ofNamespace ns)

/-- The answers about a namespace come from its counts. -/
theorem sameAt_of_counted
    (h : ∀ bucket admitted, counted events ns bucket admitted = counted events' ns bucket admitted) :
    SameAt ns (after events) (after events') := by
  have hscores (bucket : String) :
      (after events).scores? ns bucket = (after events').scores? ns bucket := by
    rw [scores?_after, scores?_after, h, h]
  have hsame : (after events).ofNamespace ns = (after events').ofNamespace ns := by
    refine NameMap.ext_get? fun bucket scores => ?_
    have hget : ((after events).ofNamespace ns).get? bucket =
        ((after events').ofNamespace ns).get? bucket := hscores bucket
    rw [hget]
  have htop (count : Scores → Nat) : (after events).top ns count = (after events').top ns count := by
    rw [top_eq_ranking, top_eq_ranking, hsame]
  exact ⟨hscores, htop Scores.hits, htop Scores.misses⟩

/-- After any calls, the counts of a bucket are those of its requests since its namespace was last
reset, and the lists show the ten buckets that rank first by these counts. They come out the same
whichever order the entries are held in, and depend neither on other namespaces nor on the order of
the requests between two resets. -/
theorem counts_and_ranks (events : List Event) (ns : String) :
    (∀ bucket, (after events).scores? ns bucket =
      scoresOf (counted events ns bucket true) (counted events ns bucket false)) ∧
    IsTop (fun bucket => counted events ns bucket true) ((after events).topHits ns) ∧
    IsTop (fun bucket => counted events ns bucket false) ((after events).topMisses ns) ∧
    (∀ entries : List (String × Scores), entries.Perm ((after events).ofNamespace ns).entries →
      ranking Scores.hits entries = (after events).topHits ns ∧
      ranking Scores.misses entries = (after events).topMisses ns) ∧
    (∀ others : List Event,
      (others.filter fun e => e.ns = ns) = (events.filter fun e => e.ns = ns) →
      SameAt ns (after others) (after events)) ∧
    ∀ before block block' rest : List Event, events = before ++ block ++ rest →
      .reset ns ∉ block → block'.Perm block →
      SameAt ns (after (before ++ block' ++ rest)) (after events) := by
  refine ⟨scores?_after events ns, isTop_top events ns Scores.hits rfl,
    isTop_top events ns Scores.misses rfl, ?_, ?_, ?_⟩
  · intro entries hperm
    exact ⟨ranking_perm hperm, ranking_perm hperm⟩
  · intro others hothers
    refine sameAt_of_counted fun bucket admitted => ?_
    rw [← counted_filter, hothers, counted_filter]
  · intro before block block' rest hevents hreset hperm
    refine sameAt_of_counted fun bucket admitted => ?_
    rw [hevents]
    exact (counted_perm hperm.symm hreset).symm

/-- Two requests of one bucket and one of another trade places, and another namespace is reset. -/
theorem counts_and_ranks_traded :
    let events : List Event := [.reset "api", .record "api" "b" true, .record "api" "a" true,
      .record "api" "b" false, .record "web" "b" true]
    ranking Scores.hits [("b", ⟨1, 1⟩), ("a", ⟨1, 0⟩)] = (after events).topHits "api" ∧
    SameAt "api" (after (events ++ [.reset "web"])) (after events) ∧
    SameAt "api" (after ([.reset "api"] ++ [.record "api" "b" false, .record "api" "a" true,
      .record "api" "b" true] ++ [.record "web" "b" true])) (after events) := by
  intro events
  obtain ⟨-, -, -, horder, hothers, hblock⟩ := counts_and_ranks events "api"
  refine ⟨(horder _ ?_).1, hothers _ (by decide), hblock _
    [.record "api" "b" true, .record "api" "a" true, .record "api" "b" false] _ _ rfl ?_ ?_⟩
  · exact List.Perm.swap ("a", (⟨1, 0⟩ : Scores)) ("b", ⟨1, 1⟩) []
  · decide
  · decide

end TokenQuota.Stats
