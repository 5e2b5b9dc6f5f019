import Mathlib.Data.List.Sort
import TokenQuota.NameMap

/-! Finite maps from names are determined by their values, and built from their entries. -/

namespace TokenQuota.NameMap

universe u

variable {α : Type u}

theorem ext_entries {m n : NameMap α} (h : m.entries = n.entries) : m = n := by
  cases m
  cases n
  simpa using h

theorem findEntry_eq_some_iff {name : String} {value : α} {l : List (String × α)}
    (h : l.Pairwise fun a b => a.1 < b.1) :
    findEntry name l = some value ↔ (name, value) ∈ l := by
  induction l with
  | nil => simp [findEntry]
  | cons a rest ih =>
      obtain ⟨ha, hrest⟩ := List.pairwise_cons.mp h
      rw [findEntry]
      split
      · rename_i hname
        subst hname
        constructor
        · intro hvalue
          rw [Option.some.injEq] at hvalue
          subst hvalue
          exact List.mem_cons_self
        · intro hmem
          rcases List.mem_cons.mp hmem with heq | hmem
          · rw [← heq]
          · exact absurd (ha _ hmem) (String.lt_irrefl _)
      · rename_i hname
        rw [ih hrest]
        constructor
        · exact List.mem_cons_of_mem a
        · intro hmem
          rcases List.mem_cons.mp hmem with heq | hmem
          · exact absurd (congrArg Prod.fst heq).symm hname
          · exact hmem

theorem get?_eq_some_iff {m : NameMap α} {name : String} {value : α} :
    m.get? name = some value ↔ (name, value) ∈ m.entries :=
  findEntry_eq_some_iff m.sorted

theorem ext_get? {m n : NameMap α}
    (h : ∀ name value, m.get? name = some value ↔ n.get? name = some value) : m = n := by
  have hirrefl : Std.Irrefl fun a b : String × α => a.1 < b.1 := ⟨fun a => String.lt_irrefl a.1⟩
  have hasymm : Std.Asymm fun a b : String × α => a.1 < b.1 := ⟨fun a b => String.lt_asymm⟩
  apply ext_entries
  apply m.sorted.eq_of_mem_iff n.sorted
  rintro ⟨name, value⟩
  rw [← get?_eq_some_iff, ← get?_eq_some_iff]
  exact h name value

theorem get?_filter (m : NameMap α) (keep : String → α → Bool) (name : String) :
    (m.filter keep).get? name = (m.get? name).filter (keep name) := by
  refine Option.ext fun value => ?_
  rw [Option.filter_eq_some_iff, get?_eq_some_iff, get?_eq_some_iff]
  exact List.mem_filter

theorem get?_insert_self (m : NameMap α) (name : String) (value : α) :
    (m.insert name value).get? name = some value :=
  (m.get?_insert name name value).trans (if_pos rfl)

theorem get?_insert_of_ne (m : NameMap α) {name other : String} (h : other ≠ name) (value : α) :
    (m.insert name value).get? other = m.get? other :=
  (m.get?_insert name other value).trans (if_neg h)

theorem get?_erase_self (m : NameMap α) (name : String) : (m.erase name).get? name = none :=
  (m.get?_erase name name).trans (if_pos rfl)

theorem get?_erase_of_ne (m : NameMap α) {name other : String} (h : other ≠ name) :
    (m.erase name).get? other = m.get? other :=
  (m.get?_erase name other).trans (if_neg h)

/-- An entry that is put in the place of itself changes nothing. -/
theorem insert_of_get? {m : NameMap α} {name : String} {value : α}
    (h : m.get? name = some value) : m.insert name value = m := by
  refine ext_get? fun other found => ?_
  rw [get?_insert]
  split
  · rename_i heq
    rw [heq, h]
  · rfl

theorem size_insert_le (m : NameMap α) (name : String) (value : α) :
    (m.insert name value).size ≤ m.size + 1 := by
  have hlength (l : List (String × α)) : (insertEntry name value l).length ≤ l.length + 1 := by
    induction l with
    | nil => exact Nat.le_refl 1
    | cons a rest ih =>
        rw [insertEntry]
        split
        · exact Nat.le_refl _
        · split
          · exact Nat.le_succ _
          · exact Nat.succ_le_succ ih
  exact hlength m.entries

theorem size_filter_le (m : NameMap α) (keep : String → α → Bool) :
    (m.filter keep).size ≤ m.size :=
  List.length_filter_le _ _

theorem insertEntry_eq_append {name : String} {value : α} {l : List (String × α)}
    (h : ∀ e ∈ l, e.1 < name) : insertEntry name value l = l ++ [(name, value)] := by
  induction l with
  | nil => rfl
  | cons a rest ih =>
      have ha : a.1 < name := h a List.mem_cons_self
      have hrest : ∀ e ∈ rest, e.1 < name := by
        intro e he
        exact h e (List.mem_cons_of_mem _ he)
      have hlt : ¬name < a.1 := fun hlt => String.lt_irrefl _ (String.lt_trans ha hlt)
      have hne : name ≠ a.1 := fun heq => String.lt_irrefl _ (heq ▸ ha)
      rw [insertEntry, if_neg hlt, if_neg hne, ih hrest]
      rfl

end TokenQuota.NameMap
