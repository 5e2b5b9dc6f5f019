import TokenQuota.Proofs.TokenBucket.StaleKeys

/-!
The cells of different buckets never meet: a request reads and writes the two cells of its own
bucket, and their keys belong to no other one.
-/

namespace TokenQuota

/-- No key is one of both pairs. -/
def CellKeys.Apart (keys keys' : CellKeys) : Prop :=
  ∀ key, key = keys.nextAvailable ∨ key = keys.accumulated →
    key ≠ keys'.nextAvailable ∧ key ≠ keys'.accumulated

theorem CellKeys.apart_of_ne {ns bucket ns' bucket' : String} (hns : ':' ∉ ns.toList)
    (hns' : ':' ∉ ns'.toList) (hne : (ns, bucket) ≠ (ns', bucket')) :
    (CellKeys.of ns bucket).Apart (CellKeys.of ns' bucket') := by
  intro key hkey
  have howner := StateKey.owner?_eq_some_iff.mpr ⟨hns, hkey⟩
  refine not_or.mp fun hkey' => hne ?_
  rw [StateKey.owner?_eq_some_iff.mpr ⟨hns', hkey'⟩] at howner
  exact (Option.some.inj howner).symm

namespace Store

/-- The two cells of a bucket as they are stored, expired or not. -/
def pair (s : Store) (keys : CellKeys) : Option Cell × Option Cell :=
  (s.cells.get? keys.nextAvailable, s.cells.get? keys.accumulated)

variable {s s' : Store} {keys keys' : CellKeys}

theorem pair_congr (h : s.cells = s'.cells) (keys : CellKeys) : s.pair keys = s'.pair keys := by
  rw [pair, pair, h]

theorem pair_write_self (hkeys : keys.nextAvailable ≠ keys.accumulated) (s : Store)
    (cells : Cells) (expiry : Option Int) :
    (s.write keys cells expiry).pair keys =
      (some ⟨cells.nextAvailable, expiry⟩, some ⟨cells.accumulated, expiry⟩) := by
  simp [pair, write, NameMap.get?_insert, hkeys]

theorem pair_write_of_apart (h : keys.Apart keys') (s : Store) (cells : Cells)
    (expiry : Option Int) : (s.write keys' cells expiry).pair keys = s.pair keys := by
  obtain ⟨hnext, hnext'⟩ := h keys.nextAvailable (.inl rfl)
  obtain ⟨haccumulated, haccumulated'⟩ := h keys.accumulated (.inr rfl)
  simp [pair, write, NameMap.get?_insert, hnext, hnext', haccumulated, haccumulated']

theorem decision_of_pair_eq (h : s.pair keys = s'.pair keys) (now : Int) (t : Take) :
    s.decision now keys t = s'.decision now keys t := by
  obtain ⟨hnext, haccumulated⟩ := Prod.mk.inj h
  unfold decision get?
  rw [hnext, haccumulated]

/-- The two cells of a bucket are all that a request for it depends on. -/
theorem take_of_pair_eq (hkeys : keys.nextAvailable ≠ keys.accumulated)
    (h : s.pair keys = s'.pair keys) (now : Int) (t : Take) :
    (s.take now keys t).1 = (s'.take now keys t).1 ∧
      (s.take now keys t).2.pair keys = (s'.take now keys t).2.pair keys := by
  have hsame := decision_of_pair_eq h now t
  cases hdecision : s'.decision now keys t with
  | rejected =>
      rw [take_of_rejected (hsame.trans hdecision), take_of_rejected hdecision]
      exact ⟨rfl, h⟩
  | admitted wait cells =>
      rw [take_of_admitted (hsame.trans hdecision), take_of_admitted hdecision]
      refine ⟨rfl, ?_⟩
      rw [pair_write_self hkeys, pair_write_self hkeys]

/-- The cells of a bucket stay as they are when a request for another one is decided. -/
theorem pair_take_of_apart (h : keys.Apart keys') (s : Store) (now : Int) (t : Take) :
    (s.take now keys' t).2.pair keys = s.pair keys := by
  cases hdecision : s.decision now keys' t with
  | rejected => rw [take_of_rejected hdecision]
  | admitted wait cells =>
      rw [take_of_admitted hdecision]
      exact pair_write_of_apart h s cells _

end Store

end TokenQuota
