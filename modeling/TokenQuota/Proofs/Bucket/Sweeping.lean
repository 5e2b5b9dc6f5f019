import TokenQuota.Proofs.Bucket.Lookups

/-!
What a sweep takes out of service: exactly the dynamic buckets that were not used since the sweep
before it, or since they were made. A sweep reads the mark of a bucket and takes it off, so that
the buckets of a container must not share their marks.
-/

namespace TokenQuota

/-! ### Marks -/

namespace Roster

variable (r : Roster) (id other : Nat)

@[simp] theorem isActive_report :
    (r.report id).isActive other = (r.isActive other || other == id) := by
  unfold report isActive
  rw [Bool.eq_iff_iff]
  split
  · rename_i h
    rw [Bool.or_eq_true, beq_iff_eq, or_iff_left_of_imp]
    rintro rfl
    exact h
  · simp [or_comm]

@[simp] theorem isActive_rest : (r.rest id).isActive other = (r.isActive other && other != id) := by
  rw [Bool.eq_iff_iff]
  simp [rest, isActive]

@[simp] theorem isActive_destroy : (r.destroy id).isActive other = r.isActive other := by
  unfold destroy
  split <;> rfl

@[simp] theorem isDestroyed_report : (r.report id).isDestroyed other = r.isDestroyed other := by
  unfold report
  split <;> rfl

@[simp] theorem isDestroyed_rest : (r.rest id).isDestroyed other = r.isDestroyed other := rfl

@[simp] theorem isDestroyed_destroy :
    (r.destroy id).isDestroyed other = (r.isDestroyed other || other == id) := by
  unfold destroy isDestroyed
  rw [Bool.eq_iff_iff]
  split
  · rename_i h
    rw [Bool.or_eq_true, beq_iff_eq, or_iff_left_of_imp]
    rintro rfl
    exact h
  · simp [or_comm]

@[simp] theorem size_report : (r.report id).size = r.size := by
  unfold report
  split <;> rfl

/-- Only buckets are marked or out of service that were made. -/
def Fits : Prop := ∀ id, r.isActive id = true ∨ r.isDestroyed id = true → id < r.size

variable {r}

/-- More buckets were made, and nothing else happened. -/
structure Grows (r r' : Roster) : Prop where
  size : r.size ≤ r'.size
  active : r'.active = r.active
  destroyed : r'.destroyed = r.destroyed

theorem Grows.refl (r : Roster) : Grows r r := ⟨Nat.le_refl _, rfl, rfl⟩

theorem Grows.trans {r' r'' : Roster} (h : Grows r r') (h' : Grows r' r'') : Grows r r'' :=
  ⟨Nat.le_trans h.size h'.size, h'.active.trans h.active, h'.destroyed.trans h.destroyed⟩

theorem Grows.isActive_eq {r' : Roster} (h : Grows r r') (id : Nat) :
    r'.isActive id = r.isActive id := by
  rw [isActive, isActive, h.active]

theorem Grows.isDestroyed_eq {r' : Roster} (h : Grows r r') (id : Nat) :
    r'.isDestroyed id = r.isDestroyed id := by
  rw [isDestroyed, isDestroyed, h.destroyed]

theorem Fits.grows {r' : Roster} (hr : r.Fits) (h : Grows r r') : r'.Fits := by
  intro id hid
  rw [h.isActive_eq, h.isDestroyed_eq] at hid
  exact Nat.lt_of_lt_of_le (hr id hid) h.size

theorem Fits.isActive_eq_false (hr : r.Fits) {id : Nat} (hid : r.size ≤ id) :
    r.isActive id = false := by
  by_contra hactive
  exact absurd (hr id (.inl (Bool.eq_true_of_not_eq_false hactive))) (Nat.not_lt.mpr hid)

theorem Fits.isDestroyed_eq_false (hr : r.Fits) {id : Nat} (hid : r.size ≤ id) :
    r.isDestroyed id = false := by
  by_contra hdestroyed
  exact absurd (hr id (.inr (Bool.eq_true_of_not_eq_false hdestroyed))) (Nat.not_lt.mpr hid)

end Roster

/-! ### One sweep -/

namespace NamespaceBuckets

variable {entries : List (String × Bucket)} {r : Roster}

/-- The buckets that stay in service when those that a mark is missing of go. -/
def kept (active : Nat → Bool) (nb : NamespaceBuckets) : NamespaceBuckets :=
  { nb with dynamic := nb.dynamic.filter fun _ x => active x.id }

theorem sweepEntries_fst (h : entries.Pairwise fun e f => e.2.id ≠ f.2.id) (r : Roster) :
    (sweepEntries entries r).1 =
      (entries.filter fun e => !r.isActive e.2.id).map Prod.fst := by
  induction entries generalizing r with
  | nil => rfl
  | cons e rest ih =>
      obtain ⟨hdistinct, hrest⟩ := List.pairwise_cons.mp h
      rw [sweepEntries]
      split
      · rename_i hactive
        rw [ih hrest, List.filter_cons_of_neg (by simp [hactive])]
        refine congrArg (List.map Prod.fst) (List.filter_congr fun f hf => ?_)
        simp [(hdistinct f hf).symm]
      · rename_i hidle
        rw [List.filter_cons_of_pos (by simp [hidle]), List.map_cons]
        simp [ih hrest]

/-- Every mark that a sweep reads is off afterwards. -/
theorem isActive_sweepEntries (entries : List (String × Bucket)) (r : Roster) (id : Nat) :
    (sweepEntries entries r).2.isActive id = true ↔
      r.isActive id = true ∧ ∀ e ∈ entries, e.2.id ≠ id := by
  induction entries generalizing r with
  | nil => simp [sweepEntries]
  | cons e rest ih =>
      rw [sweepEntries, List.forall_mem_cons]
      split
      · rw [ih]
        simp [and_assoc, ne_comm]
      · rename_i hidle
        rw [ih, Roster.isActive_destroy]
        constructor
        · rintro ⟨hactive, hothers⟩
          refine ⟨hactive, ?_, hothers⟩
          rintro rfl
          exact hidle hactive
        · rintro ⟨hactive, -, hothers⟩
          exact ⟨hactive, hothers⟩

theorem isDestroyed_sweepEntries (h : entries.Pairwise fun e f => e.2.id ≠ f.2.id) (r : Roster)
    (id : Nat) :
    (sweepEntries entries r).2.isDestroyed id = true ↔ r.isDestroyed id = true ∨
      ∃ e ∈ entries, e.2.id = id ∧ r.isActive id = false := by
  induction entries generalizing r with
  | nil => simp [sweepEntries]
  | cons e rest ih =>
      obtain ⟨hdistinct, hrest⟩ := List.pairwise_cons.mp h
      rw [sweepEntries]
      simp only [List.exists_mem_cons_iff]
      split
      · rename_i hactive
        rw [ih hrest, Roster.isDestroyed_rest]
        refine or_congr_right ⟨?_, ?_⟩
        · rintro ⟨f, hf, rfl, hidle⟩
          rw [Roster.isActive_rest, bne_iff_ne.mpr (hdistinct f hf).symm, Bool.and_true] at hidle
          exact .inr ⟨f, hf, rfl, hidle⟩
        · rintro (⟨rfl, hidle⟩ | ⟨f, hf, rfl, hidle⟩)
          · rw [hactive] at hidle
            cases hidle
          · exact ⟨f, hf, rfl, by rw [Roster.isActive_rest, hidle, Bool.false_and]⟩
      · rename_i hidle
        rw [Bool.not_eq_true] at hidle
        rw [ih hrest, Roster.isActive_destroy, Roster.isDestroyed_destroy, Bool.or_eq_true,
          beq_iff_eq, or_assoc]
        refine or_congr_right (or_congr_left ⟨?_, ?_⟩)
        · rintro rfl
          exact ⟨rfl, hidle⟩
        · rintro ⟨rfl, -⟩
          rfl

theorem kept_congr {nb : NamespaceBuckets} {active active' : Nat → Bool}
    (h : ∀ e ∈ nb.dynamic.entries, active e.2.id = active' e.2.id) :
    nb.kept active = nb.kept active' := by
  have hdynamic : nb.dynamic.filter (fun _ x => active x.id) =
      nb.dynamic.filter fun _ x => active' x.id :=
    NameMap.ext_entries (List.filter_congr h)
  rw [kept, kept, hdynamic]

theorem sweep_eq {nb : NamespaceBuckets}
    (h : nb.dynamic.entries.Pairwise fun e f => e.2.id ≠ f.2.id) (r : Roster) :
    nb.sweep r = ((nb.dynamic.entries.filter fun e => !r.isActive e.2.id).length,
      nb.kept r.isActive, (sweepEntries nb.dynamic.entries r).2) := by
  have hgone := sweepEntries_fst h r
  have hstays : ∀ e ∈ nb.dynamic.entries,
      (!(sweepEntries nb.dynamic.entries r).1.contains e.1) = r.isActive e.2.id := by
    intro e he
    rw [hgone, Bool.eq_iff_iff, Bool.not_eq_true', ← Bool.not_eq_true, List.contains_iff_mem]
    constructor
    · intro hmem
      by_contra hidle
      refine hmem (List.mem_map_of_mem (List.mem_filter.mpr ⟨he, ?_⟩))
      rw [Bool.eq_false_of_not_eq_true hidle]
      rfl
    · intro hactive hmem
      obtain ⟨f, hf, hname⟩ := List.mem_map.mp hmem
      obtain ⟨hf, hidle⟩ := List.mem_filter.mp hf
      have hsame : f = e := by
        have hfound := NameMap.get?_eq_some_iff.mpr hf
        rw [hname, NameMap.get?_eq_some_iff.mpr he] at hfound
        exact Prod.ext hname (Option.some.inj hfound).symm
      rw [hsame, hactive] at hidle
      cases hidle
  have hdynamic : nb.dynamic.filter
      (fun name _ => !(sweepEntries nb.dynamic.entries r).1.contains name) =
        nb.dynamic.filter fun _ x => r.isActive x.id :=
    NameMap.ext_entries (List.filter_congr hstays)
  rw [sweep, kept]
  dsimp only
  rw [hdynamic, hgone, List.length_map]

end NamespaceBuckets

namespace Container

/-- The dynamic buckets of some namespaces. -/
def dynamicsOf (entries : List (String × NamespaceBuckets)) : List Bucket :=
  entries.flatMap fun e => e.2.dynamic.entries.map Prod.snd

variable {entries : List (String × NamespaceBuckets)} {b : Container} {r : Roster}

theorem dynamicsOf_cons (e : String × NamespaceBuckets)
    (entries : List (String × NamespaceBuckets)) :
    dynamicsOf (e :: entries) = e.2.dynamic.entries.map Prod.snd ++ dynamicsOf entries := rfl

/-- No two of the buckets have one number. -/
def Distinct (buckets : List Bucket) : Prop :=
  buckets.Pairwise fun x y => x.id ≠ y.id

theorem distinct_cons {key : String} {nb : NamespaceBuckets}
    (h : Distinct (dynamicsOf ((key, nb) :: entries))) :
    (nb.dynamic.entries.Pairwise fun e f => e.2.id ≠ f.2.id) ∧ Distinct (dynamicsOf entries) ∧
      ∀ e ∈ nb.dynamic.entries, ∀ x ∈ dynamicsOf entries, e.2.id ≠ x.id := by
  obtain ⟨hfirst, hrest, hapart⟩ := List.pairwise_append.mp h
  refine ⟨?_, hrest, fun e he => hapart e.2 (List.mem_map_of_mem he)⟩
  rw [List.pairwise_map] at hfirst
  exact hfirst

/-- The marks of the other namespaces are as they were. -/
theorem isActive_sweep_of_apart {nb : NamespaceBuckets} (r : Roster) {x : Bucket}
    (h : ∀ e ∈ nb.dynamic.entries, e.2.id ≠ x.id) :
    (NamespaceBuckets.sweepEntries nb.dynamic.entries r).2.isActive x.id = r.isActive x.id := by
  rw [Bool.eq_iff_iff, NamespaceBuckets.isActive_sweepEntries]
  exact ⟨And.left, fun hactive => ⟨hactive, h⟩⟩

theorem sweepAll_fst (h : Distinct (dynamicsOf entries)) (b : Container) (r : Roster) :
    (sweepAll entries b r).1 =
      ((dynamicsOf entries).filter fun x => !r.isActive x.id).length := by
  induction entries generalizing b r with
  | nil => rfl
  | cons e rest ih =>
      obtain ⟨key, nb⟩ := e
      obtain ⟨hfirst, hrest, hapart⟩ := distinct_cons h
      have hsame : (dynamicsOf rest).filter (fun x =>
          !(NamespaceBuckets.sweepEntries nb.dynamic.entries r).2.isActive x.id) =
            (dynamicsOf rest).filter fun x => !r.isActive x.id := by
        refine List.filter_congr fun x hx => ?_
        rw [isActive_sweep_of_apart r fun e he => hapart e he x hx]
      rw [sweepAll, NamespaceBuckets.sweep_eq hfirst]
      dsimp only
      rw [ih hrest, hsame, dynamicsOf_cons, List.filter_append, List.length_append,
        List.filter_map, List.length_map]
      rfl

/-- Every namespace that is swept keeps the buckets that were marked before the whole sweep. -/
theorem get?_sweepAll_kept (hsorted : entries.Pairwise fun e f => e.1 < f.1)
    (h : Distinct (dynamicsOf entries)) (b : Container) (r : Roster) (key : String) :
    (sweepAll entries b r).2.1.namespaces.get? key =
      match NameMap.findEntry key entries with
      | some nb => some (nb.kept r.isActive)
      | none => b.namespaces.get? key := by
  induction entries generalizing b r with
  | nil => rfl
  | cons e rest ih =>
      obtain ⟨first, nb⟩ := e
      obtain ⟨hbefore, hsorted⟩ := List.pairwise_cons.mp hsorted
      obtain ⟨hfirst, hrest, hapart⟩ := distinct_cons h
      rw [sweepAll, NamespaceBuckets.sweep_eq hfirst]
      dsimp only
      rw [ih hsorted hrest, NameMap.findEntry]
      by_cases heq : first = key
      · subst heq
        rw [if_pos rfl, findEntry_eq_none hbefore]
        exact NameMap.get?_insert_self ..
      · rw [if_neg heq]
        cases hfound : NameMap.findEntry key rest with
        | none => exact NameMap.get?_insert_of_ne _ (Ne.symm heq) _
        | some other =>
            refine congrArg some (NamespaceBuckets.kept_congr fun f hf => ?_)
            refine isActive_sweep_of_apart r fun e he => hapart e he f.2 ?_
            have hother := (NameMap.findEntry_eq_some_iff hsorted).mp hfound
            exact List.mem_flatMap.mpr ⟨_, hother, List.mem_map_of_mem hf⟩

theorem isActive_sweepAll (entries : List (String × NamespaceBuckets)) (b : Container)
    (r : Roster) (id : Nat) :
    (sweepAll entries b r).2.2.isActive id = true ↔
      r.isActive id = true ∧ ∀ x ∈ dynamicsOf entries, x.id ≠ id := by
  induction entries generalizing b r with
  | nil => simp [sweepAll, dynamicsOf]
  | cons e rest ih =>
      rw [sweepAll, NamespaceBuckets.sweep]
      dsimp only
      rw [ih, NamespaceBuckets.isActive_sweepEntries, dynamicsOf_cons, List.forall_mem_append,
        List.forall_mem_map, and_assoc]

theorem isDestroyed_sweepAll (h : Distinct (dynamicsOf entries)) (b : Container) (r : Roster)
    (id : Nat) :
    (sweepAll entries b r).2.2.isDestroyed id = true ↔ r.isDestroyed id = true ∨
      ∃ x ∈ dynamicsOf entries, x.id = id ∧ r.isActive id = false := by
  induction entries generalizing b r with
  | nil => simp [sweepAll, dynamicsOf]
  | cons e rest ih =>
      obtain ⟨key, nb⟩ := e
      obtain ⟨hfirst, hrest, hapart⟩ := distinct_cons h
      have hsame : (∃ x ∈ dynamicsOf rest, x.id = id ∧
          (NamespaceBuckets.sweepEntries nb.dynamic.entries r).2.isActive id = false) ↔
            ∃ x ∈ dynamicsOf rest, x.id = id ∧ r.isActive id = false := by
        refine exists_congr fun x => and_congr_right fun hx => and_congr_right fun heq => ?_
        rw [← heq, isActive_sweep_of_apart r fun e he => hapart e he x hx]
      rw [sweepAll, NamespaceBuckets.sweep]
      dsimp only
      rw [ih hrest, hsame, NamespaceBuckets.isDestroyed_sweepEntries hfirst, or_assoc,
        dynamicsOf_cons]
      refine or_congr_right ⟨?_, ?_⟩
      · rintro (⟨e, he, hid⟩ | ⟨x, hx, hid⟩)
        · exact ⟨e.2, List.mem_append_left _ (List.mem_map_of_mem he), hid⟩
        · exact ⟨x, List.mem_append_right _ hx, hid⟩
      · rintro ⟨x, hx, hid⟩
        rcases List.mem_append.mp hx with hx | hx
        · obtain ⟨e, he, rfl⟩ := List.mem_map.mp hx
          exact .inl ⟨e, he, hid⟩
        · exact .inr ⟨x, hx, hid⟩

/-! ### The dynamic buckets of a container -/

def dynamics (b : Container) : List Bucket := dynamicsOf b.namespaces.entries

theorem mem_dynamics {x : Bucket} :
    x ∈ b.dynamics ↔ ∃ key name, b.dynamicOf key name = some x := by
  constructor
  · intro hx
    obtain ⟨⟨key, nb⟩, hnb, hx⟩ := List.mem_flatMap.mp hx
    obtain ⟨⟨name, x⟩, hentry, rfl⟩ := List.mem_map.mp hx
    refine ⟨key, name, ?_⟩
    rw [dynamicOf_of_namespace (NameMap.get?_eq_some_iff.mpr hnb)]
    exact NameMap.get?_eq_some_iff.mpr hentry
  · rintro ⟨key, name, hx⟩
    obtain ⟨nb, hnb, hx⟩ := Option.bind_eq_some_iff.mp hx
    exact List.mem_flatMap.mpr ⟨(key, nb), NameMap.get?_eq_some_iff.mp hnb,
      List.mem_map.mpr ⟨(name, x), NameMap.get?_eq_some_iff.mp hx, rfl⟩⟩

/-- The number of a dynamic bucket tells where it stands. -/
def Numbered (b : Container) : Prop :=
  ∀ key name x key' name' x', b.dynamicOf key name = some x → b.dynamicOf key' name' = some x' →
    x.id = x'.id → key = key' ∧ name = name'

theorem Numbered.distinct (h : b.Numbered) : Distinct b.dynamics := by
  have hplace {key name : String} {nb : NamespaceBuckets} {x : Bucket}
      (hnb : (key, nb) ∈ b.namespaces.entries) (hx : (name, x) ∈ nb.dynamic.entries) :
      b.dynamicOf key name = some x := by
    rw [dynamicOf_of_namespace (NameMap.get?_eq_some_iff.mpr hnb)]
    exact NameMap.get?_eq_some_iff.mpr hx
  refine List.pairwise_flatMap.mpr ⟨fun e he => ?_, ?_⟩
  · rw [List.pairwise_map]
    refine e.2.dynamic.sorted.imp_of_mem fun {f g} hf hg hlt hid => ?_
    obtain ⟨-, hname⟩ := h _ _ _ _ _ _ (hplace he hf) (hplace he hg) hid
    exact String.lt_irrefl _ (hname ▸ hlt)
  · refine b.namespaces.sorted.imp_of_mem fun {e f} he hf hlt x hx y hy hid => ?_
    obtain ⟨⟨name, x⟩, hentry, rfl⟩ := List.mem_map.mp hx
    obtain ⟨⟨name', y⟩, hentry', rfl⟩ := List.mem_map.mp hy
    obtain ⟨hkey, -⟩ := h _ _ _ _ _ _ (hplace he hentry) (hplace hf hentry') hid
    exact String.lt_irrefl _ (hkey ▸ hlt)

theorem dynamicOf_sweep (h : b.Numbered) (r : Roster) (key name : String) :
    (b.sweep r).2.1.dynamicOf key name =
      (b.dynamicOf key name).filter fun x => r.isActive x.id := by
  have hswept := get?_sweepAll_kept b.namespaces.sorted h.distinct b r key
  rw [show NameMap.findEntry key b.namespaces.entries = b.namespaces.get? key from rfl] at hswept
  unfold dynamicOf
  rw [sweep, hswept]
  cases hnb : b.namespaces.get? key with
  | none => rfl
  | some nb => exact NameMap.get?_filter nb.dynamic (fun _ x => r.isActive x.id) name

theorem mem_dynamics_sweep (h : b.Numbered) (r : Roster) {x : Bucket} :
    x ∈ (b.sweep r).2.1.dynamics ↔ x ∈ b.dynamics ∧ r.isActive x.id = true := by
  simp only [mem_dynamics, dynamicOf_sweep h, Option.filter_eq_some_iff, exists_and_right]

section Making

variable {b' : Container} {key name : String} {x : Bucket}
  (h : ∀ k n, b'.dynamicOf k n = if k = key ∧ n = name then some x else b.dynamicOf k n)
include h

theorem eq_or_mem_dynamics {y : Bucket} (hy : y ∈ b'.dynamics) : y = x ∨ y ∈ b.dynamics := by
  obtain ⟨k, n, hy⟩ := mem_dynamics.mp hy
  rw [h] at hy
  split at hy
  · exact .inl (Option.some.inj hy).symm
  · exact .inr (mem_dynamics.mpr ⟨k, n, hy⟩)

/-- One more dynamic bucket may be made, of a number that is greater than that of any other. -/
theorem Numbered.make (hb : b.Numbered) (hbelow : ∀ y ∈ b.dynamics, y.id < x.id) :
    b'.Numbered := by
  intro k n y k' n' y' hy hy' heq
  rw [h] at hy hy'
  split at hy <;> split at hy'
  · rename_i hplace hplace'
    exact ⟨hplace.1.trans hplace'.1.symm, hplace.2.trans hplace'.2.symm⟩
  · cases hy
    exact absurd heq (hbelow y' (mem_dynamics.mpr ⟨k', n', hy'⟩)).ne'
  · cases hy'
    exact absurd heq (hbelow y (mem_dynamics.mpr ⟨k, n, hy⟩)).ne
  · exact hb k n y k' n' y' hy hy' heq

end Making

/-! ### The buckets that a container is made with -/

/-- The bucket was there from the beginning: it is a default, or has a configuration of its own. -/
def Fixed (b : Container) (x : Bucket) : Prop :=
  b.globalDefault = some x ∨ ∃ key nb, b.namespaces.get? key = some nb ∧
    ((∃ name, nb.named.get? name = some x) ∨ nb.fallback = some x)

theorem SameStatic.fixed {b' : Container} (h : b.SameStatic b') {x : Bucket} (hx : b'.Fixed x) :
    b.Fixed x := by
  rcases hx with hglobal | ⟨key, nb', hnb', hx⟩
  · exact .inl (h.globalDefault ▸ hglobal)
  · have hkey := h.namespaces key
    rw [hnb'] at hkey
    obtain ⟨nb, hnb, hstatic⟩ := Option.map_eq_some_iff.mp hkey.symm
    refine .inr ⟨key, nb, hnb, ?_⟩
    rw [show nb.named = nb'.named from congrArg (fun t => t.2.1) hstatic,
      show nb.fallback = nb'.fallback from congrArg (fun t => t.2.2) hstatic]
    exact hx

variable {c : ServiceConfig} {n : Nat}

theorem le_makeOptional {ns name : String} {config : Option BucketConfig} (hn : n ≤ r.size)
    {x : Bucket} (hx : (makeOptional ns name config r).1 = some x) : n ≤ x.id := by
  cases config with
  | none => cases hx
  | some config =>
      cases hx
      exact hn

theorem le_makeNamed {ns : String} {entries : List (String × BucketConfig)}
    (made : NameMap Bucket) (hn : n ≤ r.size)
    (hmade : ∀ name x, made.get? name = some x → n ≤ x.id) {name : String} {x : Bucket}
    (hx : (makeNamed ns entries made r).1.get? name = some x) : n ≤ x.id := by
  induction entries generalizing made r with
  | nil => exact hmade name x hx
  | cons e rest ih =>
      refine ih _ (Nat.le_succ_of_le hn) (fun other y hy => ?_) hx
      rw [NameMap.get?_insert] at hy
      split at hy
      · cases hy
        exact hn
      · exact hmade other y hy

theorem le_makeNamespaces {entries : List (String × NamespaceConfig)}
    (made : NameMap NamespaceBuckets) (hn : n ≤ r.size)
    (hmade : ∀ key nb, made.get? key = some nb →
      (∀ name x, nb.named.get? name = some x → n ≤ x.id) ∧ ∀ x, nb.fallback = some x → n ≤ x.id)
    {key : String} {nb : NamespaceBuckets}
    (hnb : (makeNamespaces entries made r).1.get? key = some nb) :
    (∀ name x, nb.named.get? name = some x → n ≤ x.id) ∧
      ∀ x, nb.fallback = some x → n ≤ x.id := by
  induction entries generalizing made r with
  | nil => exact hmade key nb hnb
  | cons e rest ih =>
      have hnamed := makeNamed_spec e.1 e.2.buckets.entries ∅ r nofun
      have hgrows := (makeNamespace_spec e.1 e.2 r).1
      refine ih _ (Nat.le_trans hn hgrows) (fun other found hfound => ?_) hnb
      rw [NameMap.get?_insert] at hfound
      split at hfound
      · cases hfound
        exact ⟨fun name x hx => le_makeNamed ∅ hn nofun hx,
          fun x hx => le_makeOptional (Nat.le_trans hn hnamed.1) hx⟩
      · exact hmade other found hfound

/-- A container is made with new buckets. -/
theorem fixed_make {x : Bucket} (hx : (make c r).1.Fixed x) :
    r.size ≤ x.id ∧ x.id < (make c r).2.size := by
  obtain ⟨hfirst, hglobal⟩ := makeOptional_spec globalNamespace defaultBucketName c.globalDefault r
  obtain ⟨hgrows, hbelow⟩ := below_makeNamespaces c.namespaces.entries ∅
    (makeOptional globalNamespace defaultBucketName c.globalDefault r).2 nofun
  rcases hx with hx | ⟨key, nb, hnb, hx⟩
  · exact ⟨le_makeOptional (Nat.le_refl _) hx, Nat.lt_of_lt_of_le (hglobal x hx) hgrows⟩
  · obtain ⟨hnamed, hfallback⟩ := le_makeNamespaces ∅ hfirst nofun hnb
    obtain ⟨hnamed', hfallback'⟩ := hbelow key nb hnb
    rcases hx with ⟨name, hx⟩ | hx
    · exact ⟨hnamed name x hx, hnamed' name x hx⟩
    · exact ⟨hfallback x hx, hfallback' x hx⟩

theorem grows_makeOptional (ns name : String) (config : Option BucketConfig) (r : Roster) :
    r.Grows (makeOptional ns name config r).2 := by
  cases config with
  | none => exact .refl r
  | some config => exact ⟨Nat.le_succ _, rfl, rfl⟩

theorem grows_makeNamed (ns : String) (entries : List (String × BucketConfig))
    (made : NameMap Bucket) (r : Roster) : r.Grows (makeNamed ns entries made r).2 := by
  induction entries generalizing made r with
  | nil => exact .refl r
  | cons e rest ih =>
      have hfirst : r.Grows { r with size := r.size + 1 } := ⟨Nat.le_succ _, rfl, rfl⟩
      exact hfirst.trans (ih _ _)

theorem grows_makeNamespaces (entries : List (String × NamespaceConfig))
    (made : NameMap NamespaceBuckets) (r : Roster) :
    r.Grows (makeNamespaces entries made r).2 := by
  induction entries generalizing made r with
  | nil => exact .refl r
  | cons e rest ih =>
      have hnamed := grows_makeNamed e.1 e.2.buckets.entries ∅ r
      exact (hnamed.trans (grows_makeOptional e.1 defaultBucketName e.2.defaultBucket _)).trans
        (ih _ _)

theorem grows_make (c : ServiceConfig) (r : Roster) : r.Grows (make c r).2 :=
  (grows_makeOptional globalNamespace defaultBucketName c.globalDefault r).trans
    (grows_makeNamespaces c.namespaces.entries ∅ _)

/-! ### Runs -/

/-- The bucket was used after the last sweep. -/
def UsedSince (id : Nat) (operations : List Operation) : Prop :=
  ∃ before later, operations = before ++ .use id :: later ∧ .sweep ∉ later

theorem usedSince_concat {id : Nat} {operations : List Operation} {o : Operation} :
    UsedSince id (operations ++ [o]) ↔ o = .use id ∨ o ≠ .sweep ∧ UsedSince id operations := by
  constructor
  · rintro ⟨before, later, heq, hlater⟩
    rcases List.eq_nil_or_concat later with rfl | ⟨later, last, rfl⟩
    · obtain ⟨-, hlast⟩ := List.append_inj' heq rfl
      exact .inl (List.cons.inj hlast).1
    · rw [List.concat_eq_append, ← List.cons_append, ← List.append_assoc] at heq
      obtain ⟨hbefore, hlast⟩ := List.append_inj' heq rfl
      cases hlast
      rw [List.concat_eq_append, List.mem_append, not_or] at hlater
      exact .inr ⟨fun heq => hlater.2 (by simp [heq]), before, later, hbefore, hlater.1⟩
  · rintro (rfl | ⟨hne, before, later, rfl, hlater⟩)
    · exact ⟨operations, [], rfl, List.not_mem_nil⟩
    · refine ⟨before, later ++ [o], by simp, ?_⟩
      simp [hlater, hne.symm]

/-- After a sweep, a use is one that came since. -/
theorem UsedSince.mem {id : Nat} {operations later : List Operation}
    (h : UsedSince id (operations ++ .sweep :: later)) : .use id ∈ later := by
  induction later using List.reverseRecOn with
  | nil =>
      rcases usedSince_concat.mp h with heq | ⟨hne, -⟩
      · cases heq
      · exact absurd rfl hne
  | append_singleton later o ih =>
      rw [← List.cons_append, ← List.append_assoc] at h
      rcases usedSince_concat.mp h with rfl | ⟨-, hused⟩
      · simp
      · exact List.mem_append_left _ (ih hused)

/-- Only buckets are used that were made before. -/
def Proper : List Operation → Container × Roster → Prop
  | [], _ => True
  | o :: rest, s => (∀ id, o = .use id → id < s.2.size) ∧ Proper rest (o.perform s)

theorem after_append (operations later : List Operation) (s : Container × Roster) :
    after (operations ++ later) s = after later (after operations s) :=
  List.foldl_append

theorem proper_append {operations later : List Operation} {s : Container × Roster} :
    Proper (operations ++ later) s ↔ Proper operations s ∧ Proper later (after operations s) := by
  induction operations generalizing s with
  | nil => simp [Proper, after]
  | cons o rest ih =>
      rw [List.cons_append, Proper, ih, Proper, and_assoc]
      rfl

variable {b₀ : Container} {s : Container × Roster} {operations : List Operation}

/-- A lookup changes nothing, or makes the dynamic bucket of the name. -/
theorem find_makes (h : Sound c b₀ s) (key name : String) :
    (s.1.find key name s.2).2 = s ∨
      ∃ x : Bucket, x.id = s.2.size ∧ s.1.dynamicOf key name = none ∧
        (s.1.find key name s.2).2.2 = { s.2 with size := s.2.size + 1 } ∧
        ∀ k n, (s.1.find key name s.2).2.1.dynamicOf k n =
          if k = key ∧ n = name then some x else s.1.dynamicOf k n := by
  have hfinds := find_spec h.serves key name s.2
  generalize s.1.find key name s.2 = result at hfinds ⊢
  obtain ⟨found, s'⟩ := result
  cases hfinds with
  | unknown | named | live | fallback => exact .inl rfl
  | made hns hbucket htemplate hnone =>
      obtain ⟨nb, hnb, -⟩ := h.serves.namespaces key _ hns
      exact .inr ⟨_, rfl, hnone, rfl, dynamicOf_add hnb name _⟩

/-- What holds of a container and its marks after operations, when none of its first buckets has
the number `n` or a later one. -/
structure Tended (c : ServiceConfig) (b₀ : Container) (n : Nat) (operations : List Operation)
    (s : Container × Roster) : Prop where
  sound : Sound c b₀ s
  numbered : s.1.Numbered
  size : n ≤ s.2.size
  late : ∀ x ∈ s.1.dynamics, n ≤ x.id
  fits : s.2.Fits
  reported : ∀ id, UsedSince id operations → id < s.2.size
  used : ∀ x ∈ s.1.dynamics, s.2.isActive x.id = true ↔ UsedSince x.id operations
  inService : ∀ x ∈ s.1.dynamics, s.2.isDestroyed x.id = false
  fixed : ∀ x, b₀.Fixed x → s.2.isDestroyed x.id = false

theorem tended_make (c : ServiceConfig) (hr : r.Fits) :
    Tended c (make c r).1 (make c r).2.size [] (make c r) := by
  have hdynamic : ∀ key name, (make c r).1.dynamicOf key name = none := by
    intro key name
    cases hnb : (make c r).1.namespaces.get? key with
    | none => rw [dynamicOf, hnb, Option.bind_none]
    | some nb =>
        rw [dynamicOf_of_namespace hnb, dynamic_make c r hnb]
        rfl
  have hnone : ∀ x, x ∉ (make c r).1.dynamics := by
    intro x hx
    obtain ⟨key, name, hx⟩ := mem_dynamics.mp hx
    cases (hdynamic key name).symm.trans hx
  have hgrows := grows_make c r
  refine ⟨sound_make c r, ?_, Nat.le_refl _, fun x hx => absurd hx (hnone x), hr.grows hgrows, ?_,
    fun x hx => absurd hx (hnone x), fun x hx => absurd hx (hnone x), fun x hx => ?_⟩
  · intro key name x key' name' x' hx
    cases (hdynamic key name).symm.trans hx
  · rintro id ⟨before, later, heq, -⟩
    cases before <;> cases heq
  · rw [hgrows.isDestroyed_eq]
    exact hr.isDestroyed_eq_false (fixed_make hx).1

theorem Tended.find (h : Tended c b₀ n operations s) (key name : String) :
    Tended c b₀ n (operations ++ [.find key name]) (s.1.find key name s.2).2 := by
  have hused : ∀ id, UsedSince id (operations ++ [.find key name]) ↔ UsedSince id operations := by
    intro id
    rw [usedSince_concat]
    simp
  have hsound := sound_find h.sound key name
  rcases find_makes h.sound key name with hsame | ⟨x, hid, hnone, hroster, hdynamic⟩
  · rw [hsame]
    exact { h with
      reported := fun id hid => h.reported id ((hused id).mp hid)
      used := fun x hx => (h.used x hx).trans (hused x.id).symm }
  · generalize (s.1.find key name s.2).2 = s' at hsound hroster hdynamic ⊢
    have hgrows : s.2.Grows s'.2 := by
      rw [hroster]
      exact ⟨Nat.le_succ _, rfl, rfl⟩
    have hmem : ∀ y ∈ s'.1.dynamics, y = x ∨ y ∈ s.1.dynamics :=
      fun y => eq_or_mem_dynamics hdynamic
    have hbelow : ∀ y ∈ s.1.dynamics, y.id < x.id := by
      intro y hy
      obtain ⟨k, n, hy⟩ := mem_dynamics.mp hy
      rw [hid]
      exact h.sound.numbered y ⟨k, n, .inr hy⟩
    refine ⟨hsound, h.numbered.make hdynamic hbelow, Nat.le_trans h.size hgrows.size, ?_,
      h.fits.grows hgrows, ?_, ?_, ?_, ?_⟩
    · intro y hy
      rcases hmem y hy with rfl | hy
      · rw [hid]
        exact h.size
      · exact h.late y hy
    · intro id hid
      exact Nat.lt_of_lt_of_le (h.reported id ((hused id).mp hid)) hgrows.size
    · intro y hy
      rw [hgrows.isActive_eq, hused]
      rcases hmem y hy with rfl | hy
      · rw [hid, h.fits.isActive_eq_false (Nat.le_refl _)]
        exact ⟨nofun, fun hused => absurd (h.reported _ hused) (Nat.lt_irrefl _)⟩
      · exact h.used y hy
    · intro y hy
      rw [hgrows.isDestroyed_eq]
      rcases hmem y hy with rfl | hy
      · rw [hid]
        exact h.fits.isDestroyed_eq_false (Nat.le_refl _)
      · exact h.inService y hy
    · intro y hy
      rw [hgrows.isDestroyed_eq]
      exact h.fixed y hy

theorem Tended.use (h : Tended c b₀ n operations s) {id : Nat} (hid : id < s.2.size) :
    Tended c b₀ n (operations ++ [.use id]) (s.1, s.2.report id) := by
  have hused : ∀ other, UsedSince other (operations ++ [.use id]) ↔
      id = other ∨ UsedSince other operations := by
    intro other
    rw [usedSince_concat]
    simp
  refine ⟨sound_use h.sound id, h.numbered, ?_, h.late, ?_, ?_, ?_, ?_, ?_⟩
  · rw [Roster.size_report]
    exact h.size
  · intro other hother
    rw [Roster.isActive_report, Roster.isDestroyed_report, Bool.or_eq_true, beq_iff_eq] at hother
    rw [Roster.size_report]
    rcases hother with (hactive | rfl) | hdestroyed
    · exact h.fits other (.inl hactive)
    · exact hid
    · exact h.fits other (.inr hdestroyed)
  · intro other hother
    rw [Roster.size_report]
    rcases (hused other).mp hother with rfl | hother
    · exact hid
    · exact h.reported other hother
  · intro x hx
    rw [Roster.isActive_report, Bool.or_eq_true, beq_iff_eq, h.used x hx, hused, or_comm, eq_comm]
  · intro x hx
    rw [Roster.isDestroyed_report]
    exact h.inService x hx
  · intro x hx
    rw [Roster.isDestroyed_report]
    exact h.fixed x hx

theorem Tended.sweep (h : Tended c b₀ n operations s) (hn : ∀ x, b₀.Fixed x → x.id < n) :
    Tended c b₀ n (operations ++ [.sweep]) (s.1.sweep s.2).2 := by
  have hused : ∀ id, ¬UsedSince id (operations ++ [.sweep]) := by
    intro id hused
    rcases usedSince_concat.mp hused with heq | ⟨hne, -⟩
    · cases heq
    · exact hne rfl
  have hsize : (s.1.sweep s.2).2.2.size = s.2.size := size_sweepAll _ _ _
  have hactive := isActive_sweepAll s.1.namespaces.entries s.1 s.2
  have hdestroyed := isDestroyed_sweepAll h.numbered.distinct s.1 s.2
  refine ⟨sound_sweep h.sound, ?_, ?_, ?_, ?_, ?_, ?_, ?_, ?_⟩
  · intro key name x key' name' x' hx hx'
    exact h.numbered key name x key' name' x' (dynamicOf_of_sweep hx) (dynamicOf_of_sweep hx')
  · rw [hsize]
    exact h.size
  · intro x hx
    exact h.late x ((mem_dynamics_sweep h.numbered s.2).mp hx).1
  · intro id hid
    rw [hsize]
    rcases hid with hid | hid
    · exact h.fits id (.inl ((hactive id).mp hid).1)
    · rcases (hdestroyed id).mp hid with hid | ⟨x, hx, rfl, -⟩
      · exact h.fits id (.inr hid)
      · obtain ⟨key, name, hx⟩ := mem_dynamics.mp hx
        exact h.sound.numbered x ⟨key, name, .inr hx⟩
  · intro id hid
    exact absurd hid (hused id)
  · intro x hx
    refine ⟨fun hmarked => ?_, fun hx => absurd hx (hused x.id)⟩
    have hbefore := ((mem_dynamics_sweep h.numbered s.2).mp hx).1
    exact absurd rfl (((hactive x.id).mp hmarked).2 x hbefore)
  · intro x hx
    obtain ⟨hbefore, hmarked⟩ := (mem_dynamics_sweep h.numbered s.2).mp hx
    by_contra hgone
    rcases (hdestroyed x.id).mp (Bool.eq_true_of_not_eq_false hgone) with hgone | ⟨-, -, -, hidle⟩
    · cases hgone.symm.trans (h.inService x hbefore)
    · cases hmarked.symm.trans hidle
  · intro x hx
    by_contra hgone
    rcases (hdestroyed x.id).mp (Bool.eq_true_of_not_eq_false hgone) with hgone | ⟨y, hy, hid, -⟩
    · cases hgone.symm.trans (h.fixed x hx)
    · exact absurd (hn x hx) (Nat.not_lt.mpr (hid ▸ h.late y hy))

theorem Tended.perform (h : Tended c b₀ n operations s) (hn : ∀ x, b₀.Fixed x → x.id < n)
    {o : Operation} (ho : ∀ id, o = .use id → id < s.2.size) :
    Tended c b₀ n (operations ++ [o]) (o.perform s) := by
  cases o with
  | find key name => exact h.find key name
  | sweep => exact h.sweep hn
  | use id => exact h.use (ho id rfl)

theorem Tended.after (h : Tended c b₀ n operations s) (hn : ∀ x, b₀.Fixed x → x.id < n)
    {later : List Operation} (hlater : Proper later s) :
    Tended c b₀ n (operations ++ later) (after later s) := by
  induction later generalizing operations s with
  | nil =>
      rw [List.append_nil]
      exact h
  | cons o rest ih =>
      rw [List.append_cons]
      exact ih (h.perform hn hlater.1) hlater.2

/-- No bucket comes back into service. -/
theorem Tended.isDestroyed_after (h : Tended c b₀ n operations s)
    (hn : ∀ x, b₀.Fixed x → x.id < n) {later : List Operation} (hlater : Proper later s) {id : Nat}
    (hid : s.2.isDestroyed id = true) : (Container.after later s).2.isDestroyed id = true := by
  induction later generalizing operations s with
  | nil => exact hid
  | cons o rest ih =>
      refine ih (h.perform hn hlater.1) hlater.2 ?_
      cases o with
      | find key name =>
          change (s.1.find key name s.2).2.2.isDestroyed id = true
          rcases find_makes h.sound key name with hsame | ⟨x, -, -, hroster, -⟩
          · rw [hsame]
            exact hid
          · rw [hroster]
            exact hid
      | sweep => exact (isDestroyed_sweepAll h.numbered.distinct s.1 s.2 id).mpr (.inl hid)
      | use other => exact (Roster.isDestroyed_report s.2 other id).trans hid

/-- A dynamic bucket stays that is used before every sweep. -/
theorem Tended.lives_after (h : Tended c b₀ n operations s) (hn : ∀ x, b₀.Fixed x → x.id < n)
    {later : List Operation} (hlater : Proper later s) {key name : String} {x : Bucket}
    (hx : s.1.dynamicOf key name = some x)
    (hused : ∀ before, before ++ [.sweep] <+: later → UsedSince x.id (operations ++ before)) :
    (Container.after later s).1.dynamicOf key name = some x := by
  induction later generalizing operations s with
  | nil => exact hx
  | cons o rest ih =>
      refine ih (h.perform hn hlater.1) hlater.2 (h.sound.lives_perform hx o ?_) ?_
      · rintro rfl
        have hfirst := hused [] (List.prefix_append _ _)
        rw [List.append_nil] at hfirst
        have hmarked := (h.used x (mem_dynamics.mpr ⟨key, name, hx⟩)).mpr hfirst
        rw [Operation.perform, dynamicOf_sweep h.numbered, hx, Option.filter_some, if_pos hmarked]
        exact Option.some_ne_none x
      · intro before hbefore
        rw [← List.append_cons]
        exact hused (o :: before) ((List.prefix_cons_inj o).mpr hbefore)

/-- What a sweep comes to when the buckets are removed that are idle. -/
structure Reaps (s : Container × Roster) (idle : Bucket → Prop)
    (swept : Nat × Container × Roster) (gone : List Bucket) : Prop where
  distinct : (gone.map Bucket.id).Nodup
  mem : ∀ x, x ∈ gone ↔ (∃ key name, s.1.dynamicOf key name = some x) ∧ idle x
  count : swept.1 = gone.length
  static : s.1.SameStatic swept.2.1
  dynamicOf : ∀ key name x, swept.2.1.dynamicOf key name = some x ↔
    s.1.dynamicOf key name = some x ∧ x ∉ gone
  isDestroyed : ∀ id, swept.2.2.isDestroyed id = true ↔
    s.2.isDestroyed id = true ∨ ∃ x ∈ gone, x.id = id

theorem Tended.reaps (h : Tended c b₀ n operations s) :
    ∃ gone, Reaps s (fun x => ¬UsedSince x.id operations) (s.1.sweep s.2) gone := by
  have hidle : ∀ x ∈ s.1.dynamics, s.2.isActive x.id = false ↔ ¬UsedSince x.id operations := by
    intro x hx
    rw [← h.used x hx, Bool.not_eq_true]
  have hgone : ∀ x, x ∈ s.1.dynamics.filter (fun x => !s.2.isActive x.id) ↔
      x ∈ s.1.dynamics ∧ s.2.isActive x.id = false := by
    intro x
    rw [List.mem_filter, Bool.not_eq_true']
  refine ⟨s.1.dynamics.filter fun x => !s.2.isActive x.id, ?_, fun x => ?_,
    sweepAll_fst h.numbered.distinct s.1 s.2, (follows_sweep s.1 s.2).static,
    fun key name x => ?_, fun id => ?_⟩
  · rw [List.Nodup, List.pairwise_map]
    exact h.numbered.distinct.filter _
  · rw [hgone, ← mem_dynamics]
    exact and_congr_right (hidle x)
  · rw [dynamicOf_sweep h.numbered, Option.filter_eq_some_iff, hgone]
    refine and_congr_right fun hx => ?_
    rw [not_and, Bool.not_eq_false]
    exact ⟨fun hmarked _ => hmarked, fun hmarked => hmarked (mem_dynamics.mpr ⟨key, name, hx⟩)⟩
  · refine (isDestroyed_sweepAll h.numbered.distinct s.1 s.2 id).trans (or_congr_right ?_)
    refine exists_congr fun x => ?_
    rw [hgone, and_assoc]
    refine and_congr_right fun _ => ?_
    constructor
    · rintro ⟨rfl, hidle⟩
      exact ⟨hidle, rfl⟩
    · rintro ⟨hidle, rfl⟩
      exact ⟨rfl, hidle⟩

/-- A bucket that is not used between two sweeps is out of service after the second one. -/
theorem Tended.reaped (h : Tended c b₀ n operations s) (hn : ∀ x, b₀.Fixed x → x.id < n)
    {key name : String} {x : Bucket} (hx : s.1.dynamicOf key name = some x)
    {between : List Operation} (hsweep : .sweep ∉ between) (huse : .use x.id ∉ between)
    (hproper : Proper (.sweep :: between) s) :
    (Container.after (.sweep :: between ++ [.sweep]) s).2.isDestroyed x.id = true := by
  have hswept := h.perform (o := .sweep) hn nofun
  have hbetween := hswept.after hn hproper.2
  rw [after_append]
  refine (isDestroyed_sweepAll hbetween.numbered.distinct _ _ x.id).mpr ?_
  cases hmarked : s.2.isActive x.id with
  | false =>
      have hgone : (Operation.sweep.perform s).2.isDestroyed x.id = true :=
        (isDestroyed_sweepAll h.numbered.distinct s.1 s.2 x.id).mpr
          (.inr ⟨x, mem_dynamics.mpr ⟨key, name, hx⟩, rfl, hmarked⟩)
      exact .inl (hswept.isDestroyed_after hn hproper.2 hgone)
  | true =>
      have hstays : (Operation.sweep.perform s).1.dynamicOf key name = some x := by
        rw [Operation.perform, dynamicOf_sweep h.numbered, hx, Option.filter_some, if_pos hmarked]
      have hlives := hswept.lives_after hn hproper.2 hstays fun before hbefore =>
        absurd (hbefore.subset (by simp)) hsweep
      have hmem := mem_dynamics.mpr ⟨key, name, hlives⟩
      refine .inr ⟨x, hmem, rfl, ?_⟩
      by_contra hactive
      have hused := (hbetween.used x hmem).mp (Bool.eq_true_of_not_eq_false hactive)
      rw [← List.append_cons] at hused
      exact huse hused.mem

/-- A sweep removes the dynamic buckets that were not used since the last one or since they were
made, and no others, and takes exactly these out of service. One that is used before every sweep
stays, and one that is not used between two sweeps is gone after the second. -/
theorem sweeps_spec (c : ServiceConfig) {r : Roster} (hr : r.Fits) {operations : List Operation}
    (hproper : Proper operations (make c r)) :
    let s := after operations (make c r)
    (∃ gone, Reaps s (fun x => ¬UsedSince x.id operations) (s.1.sweep s.2) gone) ∧
    (make c r).1.SameStatic s.1 ∧
    (∀ x, s.1.Fixed x ∨ (∃ key name, s.1.dynamicOf key name = some x) →
      s.2.isDestroyed x.id = false) ∧
    ∀ key name x, s.1.dynamicOf key name = some x →
      (∀ later, Proper later s →
        (∀ before, before ++ [.sweep] <+: later → UsedSince x.id (operations ++ before)) →
        (after later s).1.dynamicOf key name = some x) ∧
      ∀ between later, .sweep ∉ between → .use x.id ∉ between →
        Proper (.sweep :: between ++ .sweep :: later) s →
        let s' := after (.sweep :: between ++ .sweep :: later) s
        s'.2.isDestroyed x.id = true ∧
          ∀ key' name' y, s'.1.dynamicOf key' name' = some y → y.id ≠ x.id := by
  intro s
  have hn : ∀ x, (make c r).1.Fixed x → x.id < (make c r).2.size := fun x hx => (fixed_make hx).2
  have hs : Tended c (make c r).1 (make c r).2.size operations s :=
    (tended_make c hr).after hn hproper
  refine ⟨hs.reaps, hs.sound.static, ?_, fun key name x hx => ⟨?_, ?_⟩⟩
  · rintro x (hx | hx)
    · exact hs.fixed x (hs.sound.static.fixed hx)
    · exact hs.inService x (mem_dynamics.mpr hx)
  · intro later hlater hused
    exact hs.lives_after hn hlater hx hused
  · intro between later hsweep huse hlater s'
    have hs' := hs.after hn hlater
    rw [List.append_cons] at hlater
    obtain ⟨htwice, hlater⟩ := proper_append.mp hlater
    have hgone : s'.2.isDestroyed x.id = true := by
      have hreaped := hs.reaped hn hx hsweep huse (proper_append.mp htwice).1
      have hlast := (hs.after hn htwice).isDestroyed_after hn hlater hreaped
      rw [← after_append, ← List.append_cons] at hlast
      exact hlast
    refine ⟨hgone, fun key' name' y hy heq => ?_⟩
    have hservice := hs'.inService y (mem_dynamics.mpr ⟨key', name', hy⟩)
    rw [heq] at hservice
    cases hgone.symm.trans hservice

/-- The mark of a bucket is gone after one sweep, and the bucket after two. -/
theorem sweeps_spec_marked :
    let users : NamespaceConfig := ⟨"users", none, some ⟨5, 5, 0, 0, true⟩, 2, ∅⟩
    let c := { ServiceConfig.empty with namespaces := .ofList [("users", users)] }
    let s := after [.find "users" "ann", .find "users" "bob", .use 0] (make c .empty)
    let ann : Bucket := ⟨0, "users", "ann", ⟨5, 5, 0, 0, true⟩, true⟩
    (after [.sweep] s).1.dynamicOf "users" "ann" = some ann ∧
      (after [.sweep, .find "users" "ann", .sweep] s).2.isDestroyed 0 = true := by
  intro users c s ann
  have hproper : Proper [.find "users" "ann", .find "users" "bob", .use 0] (make c .empty) := by
    refine ⟨nofun, nofun, ?_, trivial⟩
    rintro _ ⟨⟩
    decide +kernel
  have hr : Roster.empty.Fits := by rintro id (h | h) <;> cases h
  obtain ⟨-, -, -, hdynamic⟩ := sweeps_spec c hr hproper
  obtain ⟨hlives, hreaped⟩ := hdynamic "users" "ann" ann (by decide +kernel)
  refine ⟨hlives [.sweep] ⟨nofun, trivial⟩ fun before hbefore => ?_, ?_⟩
  · obtain rfl : before = [] := by
      have hlength := hbefore.length_le
      rw [List.length_append] at hlength
      exact List.eq_nil_of_length_eq_zero (by simpa using hlength)
    exact ⟨[.find "users" "ann", .find "users" "bob"], [], rfl, List.not_mem_nil⟩
  · exact (hreaped [.find "users" "ann"] [] (by simp) (by simp) ⟨nofun, nofun, nofun, trivial⟩).1

end Container

end TokenQuota
