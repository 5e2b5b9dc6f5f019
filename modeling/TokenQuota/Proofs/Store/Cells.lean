import Mathlib.Data.Finset.Card
import TokenQuota.Proofs.NameMap
import TokenQuota.Store.Basic

/-! The cells that are live, the keys under which they stand, and what deleting keys leaves. -/

namespace TokenQuota.Store

theorem get?_live_eq_filter (s : Store) (now : Int) (key : String) :
    (s.live now).get? key = (s.cells.get? key).filter fun cell => cell.isLive now :=
  NameMap.get?_filter s.cells _ key

theorem get?_live {s : Store} {now : Int} {key : String} {cell : Cell} :
    (s.live now).get? key = some cell ↔ s.cells.get? key = some cell ∧ cell.isLive now = true := by
  rw [get?_live_eq_filter, Option.filter_eq_some_iff]

theorem mem_keys {s : Store} {now : Int} {key : String} :
    key ∈ s.keys now ↔ ∃ cell, (s.live now).get? key = some cell := by
  simp [keys, NameMap.names, NameMap.get?_eq_some_iff]

theorem get?_delete (keys : List String) (s : Store) (key : String) :
    (delete keys s).2.cells.get? key = if key ∈ keys then none else s.cells.get? key := by
  induction keys generalizing s with
  | nil => rfl
  | cons first rest ih =>
      change (delete rest { s with cells := s.cells.erase first }).2.cells.get? key = _
      rw [ih, NameMap.get?_erase]
      by_cases hrest : key ∈ rest
      · simp [hrest]
      · by_cases hfirst : key = first <;> simp [hrest, hfirst]

theorem scripts_delete (keys : List String) (s : Store) :
    (delete keys s).2.scripts = s.scripts := by
  induction keys generalizing s with
  | nil => rfl
  | cons key rest ih => exact ih { s with cells := s.cells.erase key }

theorem connects_delete (keys : List String) (s : Store) :
    (delete keys s).2.connects = s.connects := by
  induction keys generalizing s with
  | nil => rfl
  | cons key rest ih => exact ih { s with cells := s.cells.erase key }

/-- A key that is named twice counts once. -/
theorem delete_fst (keys : List String) (s : Store) :
    (delete keys s).1 = (keys.toFinset.filter fun key => s.cells.contains key).card := by
  induction keys generalizing s with
  | nil => rfl
  | cons first rest ih =>
      have herased : (rest.toFinset.filter fun key => (s.cells.erase first).contains key) =
          (rest.toFinset.filter fun key => s.cells.contains key).erase first := by
        ext key
        rw [Finset.mem_erase, Finset.mem_filter, Finset.mem_filter, NameMap.contains,
          NameMap.get?_erase]
        by_cases hkey : key = first <;> simp [NameMap.contains, hkey]
      change (if s.cells.contains first then
        (delete rest { s with cells := s.cells.erase first }).1 + 1 else
        (delete rest { s with cells := s.cells.erase first }).1) = _
      rw [ih, herased, List.toFinset_cons, Finset.filter_insert]
      split
      · rw [← Finset.erase_insert_eq_erase, Finset.card_erase_add_one (Finset.mem_insert_self _ _)]
      · rename_i habsent
        rw [Finset.erase_eq_of_notMem]
        simp [habsent]

end TokenQuota.Store
