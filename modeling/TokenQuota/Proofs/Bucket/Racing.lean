import Mathlib.Data.Fintype.Card
import TokenQuota.Proofs.Bucket.Lookups

/-!
Callers that look up buckets at the same time. That there is room for a dynamic bucket is found out
before the bucket is made, and other callers may come in between. Each of them makes one bucket at
most before it finds out anew, so that a limit is exceeded by one bucket for each caller but one.
-/

namespace TokenQuota

/-- Where a caller stands that looks up buckets. -/
inductive Phase
  | idle
  /-- It looks whether there is a bucket of the name. -/
  | looking (key name : String)
  /-- There was none, and it finds out whether one may be made. -/
  | checking (key name : String)
  /-- One might be made, and it makes it unless there is one by now. -/
  | making (key name : String) (template : BucketConfig)
  | done (found : Option Bucket)
deriving DecidableEq

namespace Phase

/-- A step of a caller. No other step comes in between. -/
def go : Phase → Container × Roster → Phase × Container × Roster
  | .looking key name, (b, r) =>
    match b.namespaces.get? key with
    | none => (.done b.globalDefault, b, r)
    | some nb =>
      match nb.named.get? name with
      | some x => (.done (some x), b, r)
      | none =>
        if nb.config.template.isNone then (.done (nb.fallback.or b.globalDefault), b, r)
        else match nb.dynamic.get? name with
          | some x => (.done (some x), b, r)
          | none => (.checking key name, b, r)
  | .checking key name, (b, r) =>
    match b.namespaces.get? key with
    | none => (.done b.globalDefault, b, r)
    | some nb =>
      match nb.templateFor? name with
      | none => (.done (nb.fallback.or b.globalDefault), b, r)
      | some template => (.making key name template, b, r)
  | .making key name template, (b, r) =>
    match b.namespaces.get? key with
    | none => (.done b.globalDefault, b, r)
    | some nb =>
      let (x, nb, r) := nb.putDynamic key name template r
      (.done (some x), { b with namespaces := b.namespaces.insert key nb }, r)
  | phase, s => (phase, s)

/-- The caller is in the middle of a lookup. -/
def isBusy : Phase → Bool
  | .looking .. | .checking .. | .making .. => true
  | .idle | .done _ => false

def isDone : Phase → Bool
  | .done _ => true
  | _ => false

/-- The caller is in the middle of a lookup of the name. -/
def Seeks (key name : String) : Phase → Prop
  | .looking k n | .checking k n | .making k n _ => k = key ∧ n = name
  | .idle | .done _ => False

/-- The caller will make a bucket in the namespace with its next step. -/
def makes (key : String) : Phase → Bool
  | .making k _ _ => k == key
  | _ => false

/-- Without steps in between, the steps of a caller are a lookup. -/
theorem go_go_go (key name : String) (b : Container) (r : Roster) :
    let s₁ := go (.looking key name) (b, r)
    let s₂ := go s₁.1 s₁.2
    go s₂.1 s₂.2 = (.done (b.find key name r).1, (b.find key name r).2) := by
  rw [Container.find]
  cases hnb : b.namespaces.get? key with
  | none => simp only [go, hnb]
  | some nb =>
      cases hnamed : nb.named.get? name with
      | some x => simp only [go, hnb, hnamed]
      | none =>
          dsimp only
          unfold NamespaceBuckets.findDynamic
          cases htemplate : nb.config.template with
          | none => simp [go, hnb, hnamed, htemplate]
          | some t =>
              cases hlives : nb.dynamic.get? name with
              | some x => simp [go, hnb, hnamed, htemplate, hlives, NameMap.insert_of_get? hnb]
              | none =>
                  cases hfor : nb.templateFor? name with
                  | none => simp [go, hnb, hnamed, htemplate, hlives, hfor]
                  | some t' => simp [go, hnb, hnamed, htemplate, hlives, hfor]

end Phase

namespace Container

variable {c : ServiceConfig} {s : Container × Roster}

/-- The template that a caller carries is that of the namespace. -/
def Informed (c : ServiceConfig) : Phase → Prop
  | .making key _ template => ∃ ns, c.namespaces.get? key = some ns ∧ ns.template = some template
  | _ => True

/-- What a step of a caller comes to. -/
inductive Goes (c : ServiceConfig) (s : Container × Roster) :
    Phase → Phase × Container × Roster → Prop
  | stays {phase : Phase} (hidle : phase.isBusy = false) : Goes c s phase (phase, s)
  | apart {phase : Phase} {found : Option Bucket} (hbusy : phase.isBusy = true)
      (hfound : ∀ x, found = some x → x.dynamic = false) : Goes c s phase (.done found, s)
  | lives {key name : String} {x : Bucket} (hlives : s.1.dynamicOf key name = some x) :
      Goes c s (.looking key name) (.done (some x), s)
  | none {key name : String} : Goes c s (.looking key name) (.checking key name, s)
  | room {key name : String} {ns : NamespaceConfig} {template : BucketConfig}
      (hns : c.namespaces.get? key = some ns) (htemplate : ns.template = some template)
      (hroom : ns.maxDynamic = 0 ∨ s.1.dynamicCount key < ns.maxDynamic.toNat) :
      Goes c s (.checking key name) (.making key name template, s)
  | finds {key name : String} {template : BucketConfig} {x : Bucket}
      (hlives : s.1.dynamicOf key name = some x) :
      Goes c s (.making key name template) (.done (some x), s)
  | makes {key name : String} {template : BucketConfig} {nb : NamespaceBuckets}
      (hnb : s.1.namespaces.get? key = some nb) (hnone : s.1.dynamicOf key name = .none) :
      Goes c s (.making key name template)
        (.done (some ⟨s.2.size, key, name, template, true⟩),
          s.1.add key name ⟨s.2.size, key, name, template, true⟩,
          { s.2 with size := s.2.size + 1 })

theorem not_dynamic_of_default (h : s.1.Serves c) {key : String} {nb : NamespaceBuckets}
    (hnb : s.1.namespaces.get? key = some nb) {x : Bucket}
    (hx : nb.fallback.or s.1.globalDefault = some x) : x.dynamic = false := by
  obtain ⟨ns, -, hserved⟩ := h.namespace hnb
  rcases Option.or_eq_some_iff.mp hx with hx | ⟨-, hx⟩
  · exact Bucket.dynamic_of_terms hserved.fallback hx
  · exact Bucket.dynamic_of_terms h.globalDefault hx

theorem go_spec (h : s.1.Serves c) (phase : Phase) : Goes c s phase (phase.go s) := by
  have hglobal : ∀ x, s.1.globalDefault = some x → x.dynamic = false := fun x hx =>
    Bucket.dynamic_of_terms h.globalDefault hx
  cases phase with
  | idle | done => exact .stays rfl
  | looking key name =>
      rw [Phase.go]
      cases hnb : s.1.namespaces.get? key with
      | none => exact .apart rfl hglobal
      | some nb =>
          dsimp only
          cases hnamed : nb.named.get? name with
          | some x =>
              obtain ⟨ns, -, hserved⟩ := h.namespace hnb
              refine .apart rfl fun y hy => ?_
              cases hy
              exact Bucket.dynamic_of_terms (hserved.named name) hnamed
          | none =>
              dsimp only
              split
              · exact .apart rfl fun x => not_dynamic_of_default h hnb
              · cases hlives : nb.dynamic.get? name with
                | some x => exact .lives ((dynamicOf_of_namespace hnb name).trans hlives)
                | none => exact .none
  | checking key name =>
      rw [Phase.go]
      cases hnb : s.1.namespaces.get? key with
      | none => exact .apart rfl hglobal
      | some nb =>
          dsimp only
          cases hfor : nb.templateFor? name with
          | none => exact .apart rfl fun x => not_dynamic_of_default h hnb
          | some template =>
              obtain ⟨ns, hns, hserved⟩ := h.namespace hnb
              obtain ⟨-, -, hroom⟩ := NamespaceBuckets.templateFor?_ne_none_iff.mp
                (hfor ▸ Option.some_ne_none template : nb.templateFor? name ≠ none)
              have htemplate := NamespaceBuckets.template_of_templateFor? hfor
              have hspace := (hasRoom_iff hnb).mp hroom
              rw [hserved.config] at htemplate hspace
              exact .room hns htemplate hspace
  | making key name template =>
      rw [Phase.go]
      cases hnb : s.1.namespaces.get? key with
      | none => exact .apart rfl hglobal
      | some nb =>
          have hdynamic := dynamicOf_of_namespace hnb name
          dsimp only
          cases hlives : nb.dynamic.get? name with
          | some x =>
              have hfinds : Goes c s (.making key name template) (.done (some x), s) :=
                .finds (hdynamic.trans hlives)
              simp only [NamespaceBuckets.putDynamic, hlives, NameMap.insert_of_get? hnb]
              exact hfinds
          | none =>
              have hmakes : Goes c s (.making key name template) _ :=
                .makes hnb (hdynamic.trans hlives)
              rw [add, hnb] at hmakes
              simp only [NamespaceBuckets.putDynamic, hlives]
              exact hmakes

theorem serves_add (h : s.1.Serves c) {key : String} {ns : NamespaceConfig}
    {nb : NamespaceBuckets} {template : BucketConfig} (hnb : s.1.namespaces.get? key = some nb)
    (hns : c.namespaces.get? key = some ns) (htemplate : ns.template = some template) (id : Nat)
    (name : String) : (s.1.add key name ⟨id, key, name, template, true⟩).Serves c := by
  obtain ⟨nb', hnb', hserves⟩ := h.namespaces key ns hns
  obtain rfl := Option.some.inj (hnb.symm.trans hnb')
  rw [add, hnb]
  refine Follows.serves (follows_insert hnb (by rfl) fun ns' hserved => ?_) c h
  obtain rfl := hserves.config.symm.trans hserved.config
  refine ⟨hserved.config, hserved.named, hserved.fallback, fun other y hy => ?_⟩
  rw [NameMap.get?_insert] at hy
  split at hy
  · rename_i heq
    cases hy
    rw [htemplate, heq]
    rfl
  · exact hserved.dynamic other y hy

end Container

/-- Buckets that callers share. -/
structure Shared (callers : Nat) where
  buckets : Container × Roster
  phase : Fin callers → Phase

/-- What happens to the buckets, or to one of the callers. -/
inductive Move (callers : Nat)
  | call (i : Fin callers) (key name : String)
  | go (i : Fin callers)
  | answer (i : Fin callers)
  | sweep
  | use (id : Nat)

namespace Shared

open Container

variable {callers : Nat} {c : ServiceConfig} {s : Shared callers}

def start (callers : Nat) (c : ServiceConfig) (r : Roster) : Shared callers :=
  ⟨make c r, fun _ => .idle⟩

def put (s : Shared callers) (i : Fin callers) (phase : Phase) (buckets : Container × Roster) :
    Shared callers :=
  ⟨buckets, Function.update s.phase i phase⟩

theorem phase_put (s : Shared callers) (i j : Fin callers) (phase : Phase)
    (buckets : Container × Roster) :
    (s.put i phase buckets).phase j = if j = i then phase else s.phase j :=
  Function.update_apply s.phase i phase j

def perform (s : Shared callers) : Move callers → Shared callers
  | .call i key name => s.put i (.looking key name) s.buckets
  | .go i => s.put i ((s.phase i).go s.buckets).1 ((s.phase i).go s.buckets).2
  | .answer i => s.put i .idle s.buckets
  | .sweep => { s with buckets := (s.buckets.1.sweep s.buckets.2).2 }
  | .use id => { s with buckets := (s.buckets.1, s.buckets.2.report id) }

/-- A caller looks up one bucket at a time. -/
def Enabled (s : Shared callers) : Move callers → Prop
  | .call i _ _ => s.phase i = .idle
  | .go i => (s.phase i).isBusy = true
  | .answer i => (s.phase i).isDone = true
  | .sweep | .use _ => True

instance (s : Shared callers) (m : Move callers) : Decidable (s.Enabled m) :=
  match m with
  | .call i _ _ => inferInstanceAs (Decidable (s.phase i = .idle))
  | .go i => inferInstanceAs (Decidable ((s.phase i).isBusy = true))
  | .answer i => inferInstanceAs (Decidable ((s.phase i).isDone = true))
  | .sweep | .use _ => isTrue trivial

/-- There was a dynamic bucket of the name before the move, and there is none afterwards. -/
def Removes (key name : String) (s : Shared callers) (m : Move callers) : Prop :=
  s.buckets.1.dynamicOf key name ≠ none ∧ (s.perform m).buckets.1.dynamicOf key name = none

instance (key name : String) (s : Shared callers) (m : Move callers) :
    Decidable (s.Removes key name m) :=
  inferInstanceAs (Decidable (_ ∧ _))

def after (moves : List (Move callers)) (s : Shared callers) : Shared callers :=
  moves.foldl perform s

/-- Every move is such at its time. -/
def Along (p : Shared callers → Move callers → Prop) :
    List (Move callers) → Shared callers → Prop
  | [], _ => True
  | m :: rest, s => p s m ∧ Along p rest (s.perform m)

instance {p : Shared callers → Move callers → Prop} [∀ s m, Decidable (p s m)] :
    ∀ moves s, Decidable (Along p moves s)
  | [], _ => isTrue trivial
  | m :: rest, s =>
    have : Decidable (Along p rest (s.perform m)) := instDecidableAlong rest _
    inferInstanceAs (Decidable (p s m ∧ Along p rest (s.perform m)))

theorem after_append (moves later : List (Move callers)) (s : Shared callers) :
    after (moves ++ later) s = after later (after moves s) :=
  List.foldl_append

theorem along_append {p : Shared callers → Move callers → Prop}
    {moves later : List (Move callers)} :
    Along p (moves ++ later) s ↔ Along p moves s ∧ Along p later (after moves s) := by
  induction moves generalizing s with
  | nil => simp [Along, after]
  | cons m rest ih =>
      rw [List.cons_append, Along, ih, Along, and_assoc]
      rfl

/-! ### The number of dynamic buckets -/

/-- The callers that will make a bucket in the namespace with their next steps. -/
def makers (s : Shared callers) (key : String) : Finset (Fin callers) :=
  Finset.univ.filter fun i => (s.phase i).makes key

theorem mem_makers {key : String} {i : Fin callers} :
    i ∈ s.makers key ↔ (s.phase i).makes key = true := by
  simp [makers]

theorem card_makers_put_le {key : String} {i : Fin callers} {phase : Phase}
    {buckets : Container × Roster} (h : phase.makes key = false) :
    ((s.put i phase buckets).makers key).card ≤ ((s.makers key).erase i).card := by
  refine Finset.card_le_card fun j hj => ?_
  rw [mem_makers, phase_put] at hj
  split at hj
  · rw [h] at hj
    cases hj
  · rename_i hne
    exact Finset.mem_erase.mpr ⟨hne, mem_makers.mpr hj⟩

/-- What holds of shared buckets at any time. The limit counts for the buckets that live together
with those that are about to be made. -/
structure Limited (c : ServiceConfig) (s : Shared callers) : Prop where
  serves : s.buckets.1.Serves c
  informed : ∀ i, Informed c (s.phase i)
  capped : ∀ key ns, c.namespaces.get? key = some ns → ns.maxDynamic ≠ 0 →
    s.buckets.1.dynamicCount key + (s.makers key).card ≤ ns.maxDynamic.toNat + callers - 1

theorem limited_start (callers : Nat) (c : ServiceConfig) (r : Roster) :
    Limited c (start callers c r) := by
  refine ⟨serves_make c r, fun _ => trivial, fun key ns hns hlimit => ?_⟩
  obtain ⟨nb, hnb, -⟩ := (serves_make c r).namespaces key ns hns
  have hcount : (make c r).1.dynamicCount key = 0 := by
    rw [dynamicCount_of_namespace hnb, dynamic_make c r hnb]
    rfl
  have hmakers : (start callers c r).makers key = ∅ := by
    simp [makers, start, Phase.makes]
  rw [hmakers, Finset.card_empty]
  exact Nat.le_trans (Nat.le_of_eq hcount) (Nat.zero_le _)

/-- A caller moves on and makes no bucket, nor will it with its next step. -/
theorem Limited.put (h : Limited c s) (i : Fin callers) {phase : Phase}
    (hmakes : ∀ key, phase.makes key = false) : Limited c (s.put i phase s.buckets) := by
  refine ⟨h.serves, fun j => ?_, fun key ns hns hlimit => ?_⟩
  · rw [phase_put]
    split
    · cases phase with
      | making key => exact absurd (hmakes key) (by simp [Phase.makes])
      | idle | looking | checking | done => trivial
    · exact h.informed j
  · have hfewer : ((s.put i phase s.buckets).makers key).card ≤ (s.makers key).card :=
      Nat.le_trans (card_makers_put_le (hmakes key)) Finset.card_erase_le
    exact Nat.le_trans (Nat.add_le_add_left hfewer _) (h.capped key ns hns hlimit)

/-- A caller finds room, and will make a bucket with its next step. -/
theorem Limited.putMaking (h : Limited c s) (i : Fin callers) {key name : String}
    {ns : NamespaceConfig} {template : BucketConfig} (hns : c.namespaces.get? key = some ns)
    (htemplate : ns.template = some template)
    (hroom : ns.maxDynamic = 0 ∨ s.buckets.1.dynamicCount key < ns.maxDynamic.toNat) :
    Limited c (s.put i (.making key name template) s.buckets) := by
  refine ⟨h.serves, fun j => ?_, fun k ns' hns' hlimit => ?_⟩
  · rw [phase_put]
    split
    · exact ⟨ns, hns, htemplate⟩
    · exact h.informed j
  · by_cases hk : k = key
    · subst hk
      obtain rfl := Option.some.inj (hns.symm.trans hns')
      have hspace := hroom.resolve_left hlimit
      have hall := Finset.card_le_univ ((s.put i (.making k name template) s.buckets).makers k)
      rw [Fintype.card_fin] at hall
      change s.buckets.1.dynamicCount k +
        ((s.put i (.making k name template) s.buckets).makers k).card ≤ _
      omega
    · have hmakes : (Phase.making key name template).makes k = false :=
        beq_false_of_ne (Ne.symm hk)
      exact Nat.le_trans (Nat.add_le_add_left
        (Nat.le_trans (card_makers_put_le hmakes) Finset.card_erase_le) _)
        (h.capped k ns' hns' hlimit)

/-- The bucket that a caller makes takes the place of the caller in the count. -/
theorem Limited.putMade (h : Limited c s) {i : Fin callers} {key name : String}
    {template : BucketConfig} (hphase : s.phase i = .making key name template)
    {nb : NamespaceBuckets} (hnb : s.buckets.1.namespaces.get? key = some nb) (id : Nat)
    (found : Option Bucket) (r : Roster) :
    Limited c (s.put i (.done found)
      (s.buckets.1.add key name ⟨id, key, name, template, true⟩, r)) := by
  have hinformed := h.informed i
  rw [hphase] at hinformed
  obtain ⟨ns, hns, htemplate⟩ := hinformed
  refine ⟨serves_add h.serves hnb hns htemplate id name, fun j => ?_, fun k ns' hns' hlimit => ?_⟩
  · rw [phase_put]
    split
    · trivial
    · exact h.informed j
  · refine Nat.le_trans ?_ (h.capped k ns' hns' hlimit)
    have hcount := dynamicCount_add_le s.buckets.1 key name ⟨id, key, name, template, true⟩ k
    refine Nat.le_trans (Nat.add_le_add hcount (card_makers_put_le rfl)) ?_
    split
    · rename_i heq
      subst heq
      have hmem : i ∈ s.makers k := by
        rw [mem_makers, hphase]
        exact beq_self_eq_true k
      rw [← Finset.card_erase_add_one hmem, Nat.add_assoc, Nat.add_comm 1]
    · exact Nat.add_le_add_left Finset.card_erase_le _

theorem Limited.go (h : Limited c s) (i : Fin callers) : Limited c (s.perform (.go i)) := by
  have hgoes := go_spec h.serves (s.phase i)
  rw [perform]
  generalize hphase : s.phase i = phase at hgoes
  generalize phase.go s.buckets = result at hgoes
  cases hgoes with
  | stays hidle =>
      refine h.put i fun key => ?_
      cases phase with
      | making => cases hidle
      | idle | looking | checking | done => rfl
  | apart | lives | none | finds => exact h.put i fun _ => rfl
  | room hns htemplate hroom => exact h.putMaking i hns htemplate hroom
  | makes hnb hnone => exact h.putMade hphase hnb _ _ _

theorem Limited.perform (h : Limited c s) (m : Move callers) : Limited c (s.perform m) := by
  cases m with
  | call i key name => exact h.put i fun _ => rfl
  | go i => exact h.go i
  | answer i => exact h.put i fun _ => rfl
  | sweep =>
      refine ⟨(follows_sweep _ _).serves c h.serves, h.informed, fun key ns hns hlimit => ?_⟩
      exact Nat.le_trans (Nat.add_le_add_right (dynamicCount_sweep_le _ _ key) _)
        (h.capped key ns hns hlimit)
  | use id => exact ⟨h.serves, h.informed, h.capped⟩

theorem Limited.after (h : Limited c s) (moves : List (Move callers)) :
    Limited c (after moves s) := by
  induction moves generalizing s with
  | nil => exact h
  | cons m rest ih => exact ih (h.perform m)

/-! ### What callers are answered -/

variable {key name : String} {x : Bucket}

/-- A dynamic bucket lives until it is removed. -/
theorem Limited.lives_perform (h : Limited c s) {m : Move callers}
    (hx : s.buckets.1.dynamicOf key name = some x) (hkept : ¬s.Removes key name m) :
    (s.perform m).buckets.1.dynamicOf key name = some x := by
  have hsome : s.buckets.1.dynamicOf key name ≠ none := by
    rw [hx]
    exact Option.some_ne_none x
  cases m with
  | call | answer | use => exact hx
  | sweep =>
      obtain ⟨y, hy⟩ := Option.ne_none_iff_exists'.mp fun hnone => hkept ⟨hsome, hnone⟩
      rw [hy, ← dynamicOf_of_sweep hy]
      exact hx
  | go i =>
      have hgoes := go_spec h.serves (s.phase i)
      change ((s.phase i).go s.buckets).2.1.dynamicOf key name = some x
      generalize s.phase i = phase at hgoes ⊢
      generalize phase.go s.buckets = result at hgoes ⊢
      cases hgoes with
      | stays | apart | lives | none | room | finds => exact hx
      | makes hnb hnone =>
          rw [dynamicOf_add hnb, if_neg]
          · exact hx
          · rintro ⟨rfl, rfl⟩
            exact hsome hnone

theorem Limited.lives_after (h : Limited c s) {moves : List (Move callers)}
    (hx : s.buckets.1.dynamicOf key name = some x)
    (hkept : Along (fun s m => ¬s.Removes key name m) moves s) :
    (Shared.after moves s).buckets.1.dynamicOf key name = some x := by
  induction moves generalizing s with
  | nil => exact hx
  | cons m rest ih => exact ih (h.perform m) (h.lives_perform hx hkept.1) hkept.2

/-- A lookup of the name is under way or answered, and if with a dynamic bucket, this one lives. -/
def Answered (key name : String) (s : Shared callers) (i : Fin callers) : Prop :=
  (s.phase i).Seeks key name ∨ ∃ found, s.phase i = .done found ∧
    ∀ x, found = some x → x.dynamic = true → s.buckets.1.dynamicOf key name = some x

theorem Limited.answered_of_phase (h : Limited c s) {i : Fin callers} {m : Move callers}
    (hi : Answered key name s i) (hkept : ¬s.Removes key name m)
    (hphase : (s.perform m).phase i = s.phase i) : Answered key name (s.perform m) i := by
  unfold Answered
  rw [hphase]
  refine hi.imp_right ?_
  rintro ⟨found, hdone, hfound⟩
  exact ⟨found, hdone, fun x hx hdynamic => h.lives_perform (hfound x hx hdynamic) hkept⟩

theorem Limited.answered_perform (h : Limited c s) {i : Fin callers} {m : Move callers}
    (hi : Answered key name s i) (henabled : s.Enabled m) (hm : m ≠ .answer i)
    (hkept : ¬s.Removes key name m) : Answered key name (s.perform m) i := by
  have hother := fun hphase => h.answered_of_phase (m := m) hi hkept hphase
  cases m with
  | sweep | use => exact hother rfl
  | call j k n =>
      refine hother ((phase_put ..).trans (if_neg ?_))
      rintro rfl
      rcases hi with hseeks | ⟨found, hdone, -⟩
      · rw [henabled] at hseeks
        exact hseeks
      · cases henabled.symm.trans hdone
  | answer j =>
      refine hother ((phase_put ..).trans (if_neg ?_))
      rintro rfl
      exact hm rfl
  | go j =>
      by_cases hij : i = j
      · subst hij
        have hseeks : (s.phase i).Seeks key name := by
          refine hi.resolve_right ?_
          rintro ⟨found, hdone, -⟩
          rw [Enabled, hdone] at henabled
          cases henabled
        have hgoes := go_spec h.serves (s.phase i)
        unfold Answered
        rw [Shared.perform, phase_put, if_pos rfl]
        change _ ∨ ∃ found, _ ∧ ∀ x, _ → _ → ((s.phase i).go s.buckets).2.1.dynamicOf key name = _
        generalize s.phase i = phase at hgoes hseeks ⊢
        generalize phase.go s.buckets = result at hgoes ⊢
        cases hgoes with
        | stays hidle => exact .inl hseeks
        | apart hbusy hfound =>
            refine .inr ⟨_, rfl, fun x hx hdynamic => ?_⟩
            cases hdynamic.symm.trans (hfound x hx)
        | none | room => exact .inl hseeks
        | lives hlives | finds hlives =>
            obtain ⟨rfl, rfl⟩ := hseeks
            refine .inr ⟨_, rfl, fun x hx _ => ?_⟩
            cases hx
            exact hlives
        | makes hnb hnone =>
            obtain ⟨rfl, rfl⟩ := hseeks
            refine .inr ⟨_, rfl, fun x hx _ => ?_⟩
            cases hx
            exact (dynamicOf_add hnb ..).trans (if_pos ⟨rfl, rfl⟩)
      · exact hother ((phase_put ..).trans (if_neg hij))

theorem Limited.answered_after (h : Limited c s) {i : Fin callers} {moves : List (Move callers)}
    (hi : Answered key name s i) (henabled : Along Enabled moves s) (hmoves : .answer i ∉ moves)
    (hkept : Along (fun s m => ¬s.Removes key name m) moves s) :
    Answered key name (Shared.after moves s) i := by
  induction moves generalizing s with
  | nil => exact hi
  | cons m rest ih =>
      obtain ⟨hm, hrest⟩ := not_or.mp (mt List.mem_cons.mpr hmoves)
      exact ih (h.perform m) (h.answered_perform hi henabled.1 (Ne.symm hm) hkept.1) henabled.2
        hrest hkept.2

/-- A caller asks for the name, and is told of the bucket in the end. -/
def Finds (key name : String) (x : Bucket) (moves : List (Move callers)) (s : Shared callers) :
    Prop :=
  ∃ i before within later, moves = before ++ .call i key name :: (within ++ .answer i :: later) ∧
    .answer i ∉ within ∧
    (after (before ++ .call i key name :: within) s).phase i = .done (some x)

/-- What a caller finds lives in the end. -/
theorem Limited.lives_of_finds (h : Limited c s) {moves : List (Move callers)}
    (henabled : Along Enabled moves s)
    (hkept : Along (fun s m => ¬s.Removes key name m) moves s) (hfinds : Finds key name x moves s)
    (hdynamic : x.dynamic = true) :
    (Shared.after moves s).buckets.1.dynamicOf key name = some x := by
  obtain ⟨i, before, within, later, rfl, hwithin, hdone⟩ := hfinds
  rw [after_append] at hdone ⊢
  obtain ⟨-, -, henabled⟩ := along_append.mp henabled
  obtain ⟨-, -, hkept⟩ := along_append.mp hkept
  obtain ⟨henabled, -⟩ := along_append.mp henabled
  obtain ⟨hwithinKept, hlaterKept⟩ := along_append.mp hkept
  have hcalled := (h.after before).perform (.call i key name)
  have hasked : Answered key name ((Shared.after before s).perform (.call i key name)) i := by
    refine .inl ?_
    rw [Shared.perform, phase_put, if_pos rfl]
    exact ⟨rfl, rfl⟩
  rw [← List.cons_append, after_append]
  change (Shared.after within _).phase i = _ at hdone
  have hlives : (Shared.after within ((Shared.after before s).perform
      (.call i key name))).buckets.1.dynamicOf key name = some x := by
    rcases hcalled.answered_after hasked henabled hwithin hwithinKept with
      hseeks | ⟨found, hphase, hfound⟩
    · rw [hdone] at hseeks
      exact hseeks.elim
    · cases hphase.symm.trans hdone
      exact hfound x rfl hdynamic
  exact (hcalled.after within).lives_after hlives hlaterKept

/-- The steps of a caller are a lookup if no others come in between. However the steps of callers
come one after the other, no namespace has more dynamic buckets than its limit allows and one for
each caller but one. Callers that find a dynamic bucket of a name find the same one, if it is not
removed in the meantime. -/
theorem racing_spec (callers : Nat) (c : ServiceConfig) (r : Roster)
    (earlier : List (Move callers)) :
    let s := after earlier (start callers c r)
    (∀ key name b r, let s₁ := Phase.go (.looking key name) (b, r)
      let s₂ := s₁.1.go s₁.2
      s₂.1.go s₂.2 = (.done (b.find key name r).1, (b.find key name r).2)) ∧
    (∀ key ns, c.namespaces.get? key = some ns → ns.maxDynamic ≠ 0 →
      s.buckets.1.dynamicCount key ≤ ns.maxDynamic.toNat + callers - 1) ∧
    ∀ key name moves, Along Enabled moves s →
      Along (fun s m => ¬s.Removes key name m) moves s → ∀ x y, Finds key name x moves s →
        Finds key name y moves s → x.dynamic = true → y.dynamic = true → x = y := by
  intro s
  have hs : Limited c s := (limited_start callers c r).after earlier
  refine ⟨Phase.go_go_go, fun key ns hns hlimit => ?_,
    fun key name moves henabled hkept x y hx hy hdx hdy => ?_⟩
  · exact Nat.le_trans (Nat.le_add_right _ _) (hs.capped key ns hns hlimit)
  · have hxlives := hs.lives_of_finds henabled hkept hx hdx
    rw [hs.lives_of_finds henabled hkept hy hdy] at hxlives
    exact (Option.some.inj hxlives).symm

/-- Two callers exceed a limit of one when they ask for two names, and find the same bucket when
they ask for one. -/
theorem racing_spec_two :
    let users : NamespaceConfig := ⟨"users", none, some ⟨5, 5, 0, 0, true⟩, 1, ∅⟩
    let c := { ServiceConfig.empty with namespaces := .ofList [("users", users)] }
    let steps : List (Move 2) := [.go 0, .go 1, .go 0, .go 1, .go 0, .go 1]
    let ann : Bucket := ⟨0, "users", "ann", ⟨5, 5, 0, 0, true⟩, true⟩
    let apart := after (.call 0 "users" "ann" :: .call 1 "users" "bob" :: steps)
      (start 2 c .empty)
    apart.buckets.1.dynamicCount "users" = 2 ∧ apart.buckets.1.dynamicCount "users" ≤ 2 ∧
      ∀ x, x.dynamic = true → Finds "users" "ann" x
        (.call 0 "users" "ann" :: (.call 1 "users" "ann" :: steps ++ [.answer 0, .answer 1]))
        (start 2 c .empty) → x = ann := by
  intro users c steps ann apart
  obtain ⟨-, hcapped, -⟩ := racing_spec 2 c .empty
    (.call 0 "users" "ann" :: .call 1 "users" "bob" :: steps)
  obtain ⟨-, -, hsame⟩ := racing_spec 2 c .empty []
  refine ⟨by decide +kernel, hcapped "users" users (by decide +kernel) (by decide), ?_⟩
  intro x hdynamic hx
  refine hsame "users" "ann" _ (by decide +kernel) (by decide +kernel) x ann hx ?_ hdynamic rfl
  exact ⟨0, [], .call 1 "users" "ann" :: steps, [.answer 1], rfl, by simp [steps],
    by decide +kernel⟩

end Shared

end TokenQuota
