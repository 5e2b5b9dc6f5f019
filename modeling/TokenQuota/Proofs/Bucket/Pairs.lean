import TokenQuota.Bucket.Taking
import TokenQuota.Proofs.Bucket.Cleaning
import TokenQuota.Proofs.Task.Keeping

/-!
The two cells of a bucket come and go together. A request that is admitted writes both with one
expiry, and whoever cleans the store deletes both or neither.
-/

namespace TokenQuota

namespace CellKeys

/-- Two names with one key in common have both. -/
theorem nextAvailable_eq_iff {ns bucket ns' bucket' : String} :
    (of ns bucket).nextAvailable = (of ns' bucket').nextAvailable ↔
      (of ns bucket).accumulated = (of ns' bucket').accumulated := by
  have hjoin (mark : String) : StateKey.join ns bucket mark = StateKey.join ns' bucket' mark ↔
      ns.toList ++ ':' :: bucket.toList = ns'.toList ++ ':' :: bucket'.toList := by
    rw [← String.toList_inj, StateKey.toList_join, StateKey.toList_join, ← List.cons_append,
      ← List.append_assoc, ← List.cons_append, ← List.append_assoc, List.append_left_inj]
  exact (hjoin _).trans (hjoin _).symm

theorem names_iff (ns bucket ns' bucket' : String) :
    StateKey.Names ns' bucket' (of ns bucket).nextAvailable ↔
      StateKey.Names ns' bucket' (of ns bucket).accumulated := by
  unfold StateKey.Names
  simp [nextAvailable_ne ns bucket ns' bucket', (nextAvailable_ne ns' bucket' ns bucket).symm,
    nextAvailable_eq_iff]

/-- With a key of a bucket the other one is in the list. -/
def BothIn (keys : List String) : Prop :=
  ∀ ns bucket, (of ns bucket).nextAvailable ∈ keys ↔ (of ns bucket).accumulated ∈ keys

end CellKeys

theorem ServiceConfig.abandons_iff (c : ServiceConfig) (ns bucket : String) :
    c.Abandons (CellKeys.of ns bucket).nextAvailable ↔
      c.Abandons (CellKeys.of ns bucket).accumulated := by
  simp only [Abandons, CellKeys.names_iff]

namespace Store

variable {s : Store}

/-- The two cells of every bucket are both there, with one expiry, or neither is. -/
def Paired (s : Store) : Prop :=
  ∀ ns bucket, (s.cells.get? (CellKeys.of ns bucket).nextAvailable).map Cell.expiry =
    (s.cells.get? (CellKeys.of ns bucket).accumulated).map Cell.expiry

theorem paired_of_cells_eq_empty (h : s.cells = ∅) : s.Paired := by
  intro ns bucket
  rw [h]
  rfl

theorem Paired.of_cells_eq {s' : Store} (h : s.Paired) (hcells : s'.cells = s.cells) :
    s'.Paired := by
  unfold Paired
  rw [hcells]
  exact h

/-- Cells of one expiry are live at the same times. -/
theorem Paired.isSome_live (h : s.Paired) (now : Int) (ns bucket : String) :
    ((s.live now).get? (CellKeys.of ns bucket).nextAvailable).isSome =
      ((s.live now).get? (CellKeys.of ns bucket).accumulated).isSome := by
  have hexpiry := h ns bucket
  rw [get?_live_eq_filter, get?_live_eq_filter]
  cases hnext : s.cells.get? (CellKeys.of ns bucket).nextAvailable with
  | none =>
      rw [hnext] at hexpiry
      rw [Option.map_eq_none_iff.mp hexpiry.symm]
  | some cell =>
      rw [hnext] at hexpiry
      obtain ⟨cell', haccumulated, hsame⟩ := Option.map_eq_some_iff.mp hexpiry.symm
      have hlive : cell'.isLive now = cell.isLive now := by
        rw [Cell.isLive, Cell.isLive, hsame]
      rw [haccumulated, Option.isSome_filter, Option.isSome_filter]
      simp [hlive]

theorem Paired.write (h : s.Paired) (ns bucket : String) (cells : Cells) (expiry : Option Int) :
    (s.write (.of ns bucket) cells expiry).Paired := by
  intro ns' bucket'
  have hnext := CellKeys.nextAvailable_ne ns' bucket' ns bucket
  have haccumulated := (CellKeys.nextAvailable_ne ns bucket ns' bucket').symm
  simp only [Store.write, NameMap.get?_insert, if_neg hnext, if_neg haccumulated]
  by_cases hsame : (CellKeys.of ns' bucket').nextAvailable = (CellKeys.of ns bucket).nextAvailable
  · rw [if_pos hsame, if_pos (CellKeys.nextAvailable_eq_iff.mp hsame)]
    rfl
  · rw [if_neg hsame, if_neg fun heq => hsame (CellKeys.nextAvailable_eq_iff.mpr heq)]
    exact h ns' bucket'

theorem Paired.take (h : s.Paired) (now : Int) (b : Bucket) (t : Take) :
    (s.take now b.keys t).2.Paired := by
  cases hdecision : s.decision now b.keys t with
  | rejected =>
      rw [take_of_rejected hdecision]
      exact h
  | admitted wait cells =>
      rw [take_of_admitted hdecision]
      exact h.write b.ns b.name cells _

theorem Paired.delete (h : s.Paired) {keys : List String} (hkeys : CellKeys.BothIn keys) :
    (delete keys s).2.Paired := by
  intro ns bucket
  rw [get?_delete, get?_delete]
  by_cases hmem : (CellKeys.of ns bucket).nextAvailable ∈ keys
  · rw [if_pos hmem, if_pos ((hkeys ns bucket).mp hmem)]
  · rw [if_neg hmem, if_neg fun hmem' => hmem ((hkeys ns bucket).mpr hmem')]
    exact h ns bucket

/-- Of the two cells of a bucket both are stale or neither, although each key is looked at alone. -/
theorem Paired.bothIn_doomed (h : s.Paired) (c : ServiceConfig) (now : Int) :
    CellKeys.BothIn (c.doomed s now) := by
  intro ns bucket
  rw [c.mem_doomed, c.mem_doomed, c.abandons_iff, ← Option.isSome_iff_exists,
    ← Option.isSome_iff_exists, h.isSome_live]

end Store

namespace Link

open TokenQuota.Protocol

/-- Cells that come in pairs still do. -/
def KeepsPairs (l l' : Link) : Prop := l.backend.store.Paired → l'.backend.store.Paired

theorem keepsPairs_of_spares {α : Type} {a : Client α} (ha : a.run.Changes Spares) :
    a.run.Changes KeepsPairs :=
  ha.mono fun _ _ h hl => hl.of_cells_eq h.keepsCells

theorem keepsPairs_call {α : Type} {c : Call α}
    (hc : ∀ b : Backend, b.store.Paired → (c b).2.store.Paired) :
    (call c).run.Changes KeepsPairs :=
  Task.Changes.onPart (R := fun b b' : Backend => b.store.Paired → b'.store.Paired)
    (fun _ _ hr => hr) (Task.changes_atOnce hc)

theorem keepsPairs_evaluate (h : Handle) (b : Bucket) (requested : Int) (maxWait : Nat) :
    (evaluate h b requested maxWait).run.Changes KeepsPairs := by
  refine keepsPairs_call fun backend hpaired => ?_
  unfold Backend.take Backend.guarded
  dsimp only
  split
  · exact hpaired
  · split
    · exact hpaired.take _ b _
    · exact hpaired

theorem keepsPairs_takeFrom (retry : Retry) (b : Bucket) (requested : Int) (maxWait : Nat)
    (left attempt : Nat) :
    (takeFrom retry b requested maxWait left attempt).run.Changes KeepsPairs := by
  have hspares {α : Type} {a : Client α} (ha : a.run.Changes Spares) :
      a.outcome.run.Changes KeepsPairs :=
    Action.changes_outcome (keepsPairs_of_spares ha)
  induction left generalizing attempt with
  | zero => exact trivial
  | succ left ih =>
      refine Action.changes_bind (Action.changes_ofTask (Task.changes_pause _ _)) fun _ => ?_
      refine Action.changes_bind (hspares spares_getOrConnect) fun found => ?_
      cases found with
      | error e => exact ih (attempt + 1)
      | ok h =>
          refine Action.changes_bind
            (Action.changes_outcome (keepsPairs_evaluate h b requested maxWait)) fun answer => ?_
          cases answer with
          | ok result => exact trivial
          | error e =>
              exact Action.changes_bind (hspares (spares_reconnect h)) fun _ =>
                ih (attempt + 1)

theorem keepsPairs_take (retry : Retry) (b : Bucket) (requested : Int) (maxWait : Nat) :
    (take retry b requested maxWait).run.Changes KeepsPairs :=
  keepsPairs_takeFrom retry b requested maxWait retry.count 0

/-- Clients of a store whose cells come in pairs. -/
abbrev pairing : Protocol Unit Unit Link := .keeping Unit fun l => l.backend.store.Paired

theorem pairing_of_changes {α : Type} {a : Client α} (ha : a.run.Changes KeepsPairs) :
    pairing.Does () () (fun _ => True) a fun _ _ => True :=
  keeping_of_changes ha fun _ _ hl h => h hl

theorem pairing_call {α : Type} {c : Call α} {R : Except QuotaError α → Prop}
    (hc : ∀ b : Backend, b.store.Paired → (c b).2.store.Paired ∧ R (c b).1) :
    pairing.Does () () (fun _ => True) (call c) fun r _ => R r := by
  let f (l : Link) : Except QuotaError α × Link := ((c l.backend).1, store.set (c l.backend).2 l)
  exact does_check (f := f) (stable_keeping True) (fun r => stable_keeping (R r))
    fun l hl _ _ => hc l.backend hl

theorem pairing_scan (c : ServiceConfig) :
    pairing.Does () () (fun _ => True) (call Backend.scan)
      fun r _ => ∀ keys, r = .ok keys → CellKeys.BothIn (c.staleKeys keys) := by
  refine pairing_call (R := fun r => ∀ keys, r = .ok keys → CellKeys.BothIn (c.staleKeys keys))
    fun b hb => ?_
  rw [Backend.scan_eq]
  refine ⟨hb, ?_⟩
  intro keys hkeys
  split at hkeys
  · cases hkeys
  · cases hkeys
    exact hb.bothIn_doomed c b.now

theorem keepsPairs_delete {keys : List String} (hkeys : CellKeys.BothIn keys) :
    (call (Backend.delete keys)).run.Changes KeepsPairs := by
  refine keepsPairs_call fun b hpaired => ?_
  have hcells := (Backend.delete_spec keys b).2
  split at hcells
  · exact hpaired.of_cells_eq hcells
  · exact (hpaired.delete hkeys).of_cells_eq hcells

/-- Others may write cells between the moments at which the keys are listed and deleted: the keys
are still those of both cells of their buckets. -/
theorem pairing_clean (c : ServiceConfig) :
    pairing.Does () () (fun _ => True) (clean c) fun _ _ => True := by
  refine .bind (pairing_of_changes (keepsPairs_of_spares spares_getOrConnect)) (fun _ => ?_)
    fun _ _ _ _ => trivial
  refine .bind (pairing_scan c) (fun keys => ?_) fun _ _ _ _ => trivial
  intro l hboth
  have hkeys := hboth keys rfl
  refine pairing_of_changes ?_ l trivial
  change (if (c.staleKeys keys).isEmpty then pure 0
    else call (Backend.delete (c.staleKeys keys)) : Client Nat).run.Changes KeepsPairs
  split
  · exact trivial
  · exact keepsPairs_delete hkeys

theorem pairing_prepare (c : ServiceConfig) :
    pairing.Does () () (fun _ => True) (prepare c) fun _ _ => True := by
  refine .bind (pairing_of_changes (keepsPairs_of_spares spares_ensureScript)) (fun _ => ?_)
    fun _ _ _ _ => trivial
  refine .bind (pairing_clean c).outcome (fun _ => ?_) fun e _ _ he => absurd he id
  exact (does_pure (stable_keeping True) ()).mono (fun _ hs => trivial) fun _ _ _ _ => trivial

end Link

end TokenQuota
