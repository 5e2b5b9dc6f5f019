import Mathlib.Data.Prod.Lex
import Mathlib.Data.String.Basic
import Mathlib.Order.WithBot
import TokenQuota.Proofs.Config.Validity

/-!
Which configurations are well formed, rule by rule, and the order of the places at which a rule may
be broken. A check accepts exactly the configurations that are well formed, and reports of any other
one the violation that comes first.
-/

namespace TokenQuota

/-- An ASCII letter or digit, an underscore, a point or a hyphen. -/
def IsNameMark (ch : Char) : Prop :=
  ('a' ≤ ch ∧ ch ≤ 'z') ∨ ('A' ≤ ch ∧ ch ≤ 'Z') ∨ ('0' ≤ ch ∧ ch ≤ '9') ∨
    ch = '_' ∨ ch = '.' ∨ ch = '-'

def IsNameText (name : String) : Prop :=
  name ≠ "" ∧ ∀ ch ∈ name.toList, IsNameMark ch

def IsReserved (name : String) : Prop :=
  name = globalNamespace ∨ name = defaultBucketName

/-- A name that a namespace or a bucket may have. -/
def IsFreeName (name : String) : Prop :=
  IsNameText name ∧ ¬IsReserved name

/-- The numbers of a bucket are in their ranges. -/
structure BucketConfig.InRanges (b : BucketConfig) : Prop where
  fillRate : 1 ≤ b.fillRate.toInt ∧ b.fillRate.toInt ≤ 1000000000
  size : 1 ≤ b.size.toInt
  maxIdle : 0 ≤ b.maxIdleMillis.toInt
  maxDebt : 0 ≤ b.maxDebtMillis.toInt ∧ b.maxDebtMillis.toInt ≤ 9223372036854

/-- A bucket that stands in a configuration, as a template or not. -/
inductive ServiceConfig.Has (c : ServiceConfig) : (template : Bool) → BucketConfig → Prop
  | globalDefault {b : BucketConfig} (hb : c.globalDefault = some b) : Has c false b
  | fallback {key : String} {ns : NamespaceConfig} {b : BucketConfig}
    (hns : c.namespaces.get? key = some ns) (hb : ns.defaultBucket = some b) : Has c false b
  | template {key : String} {ns : NamespaceConfig} {b : BucketConfig}
    (hns : c.namespaces.get? key = some ns) (hb : ns.template = some b) : Has c true b
  | named {key name : String} {ns : NamespaceConfig} {b : BucketConfig}
    (hns : c.namespaces.get? key = some ns) (hb : ns.buckets.get? name = some b) : Has c false b

/-- All rules for configurations. -/
structure ServiceConfig.WellFormed (c : ServiceConfig) : Prop where
  keyed : ∀ key ns, c.namespaces.get? key = some ns → key = ns.name
  namespaces : ∀ key ns, c.namespaces.get? key = some ns → IsFreeName key
  buckets : ∀ key ns name b, c.namespaces.get? key = some ns → ns.buckets.get? name = some b →
    IsFreeName name
  inRanges : ∀ template b, c.Has template b → b.InRanges
  unmarked : ∀ b, c.Has false b → b.dynamic = false

/-- What a rule for a single bucket is about. -/
inductive BucketRule
  | flag
  | ranges

/-- A place in a configuration at which a rule may be broken. -/
inductive Spot
  | globalDefault (rule : BucketRule)
  | key (ns : String)
  | name (ns : String)
  | fallback (ns : String) (rule : BucketRule)
  | template (ns : String)
  | bucketName (ns bucket : String)
  | bucket (ns bucket : String) (rule : BucketRule)

/-- Places are compared by namespace, by the part of the namespace, by bucket, and by what the rule
for the bucket is about. -/
abbrev Spot.Position := WithBot String ×ₗ ℕ ×ₗ WithBot String ×ₗ ℕ

def BucketRule.rank : BucketRule → ℕ
  | .flag => 1
  | .ranges => 2

/-- The global default bucket comes before all namespaces. In a namespace come its key, its name,
its default bucket, its template, and its buckets with their names, in this order. -/
def Spot.place : Spot → Position
  | .globalDefault rule => toLex (⊥, toLex (0, toLex (⊥, rule.rank)))
  | .key ns => toLex (↑ns, toLex (0, toLex (⊥, 0)))
  | .name ns => toLex (↑ns, toLex (1, toLex (⊥, 0)))
  | .fallback ns rule => toLex (↑ns, toLex (2, toLex (⊥, rule.rank)))
  | .template ns => toLex (↑ns, toLex (3, toLex (⊥, 0)))
  | .bucketName ns b => toLex (↑ns, toLex (4, toLex (↑b, 0)))
  | .bucket ns b rule => toLex (↑ns, toLex (4, toLex (↑b, rule.rank)))

/-- The number that a range is about is not in it. -/
def RangeError.IsOut (b : BucketConfig) : RangeError → Prop
  | .fillRate => ¬(1 ≤ b.fillRate.toInt ∧ b.fillRate.toInt ≤ 1000000000)
  | .maxDebt => ¬(0 ≤ b.maxDebtMillis.toInt ∧ b.maxDebtMillis.toInt ≤ 9223372036854)
  | .maxIdle => ¬0 ≤ b.maxIdleMillis.toInt
  | .size => ¬1 ≤ b.size.toInt

instance (b : BucketConfig) : DecidablePred (RangeError.IsOut b)
  | .fillRate | .maxDebt | .maxIdle | .size => inferInstanceAs (Decidable (¬_))

/-- A name breaks the rule for names, and the violation that this is. -/
inductive NameKind.Breaks (kind : NameKind) (name : String) : Violation → Prop
  | malformed (h : ¬IsNameText name) : Breaks kind name (.malformedName kind name)
  | reserved (h : IsReserved name) : Breaks kind name (.reservedName kind name)

/-- A bucket breaks a rule. All its ranges are one rule, and the violation names each of them that
is broken. -/
inductive BucketConfig.Breaks (b : BucketConfig) (location : String) :
    BucketRule → Violation → Prop
  | flag (h : b.dynamic = true) : Breaks b location .flag (.markedDynamic location)
  | ranges (h : ¬b.InRanges) : Breaks b location .ranges
    (.outOfRange location
      ([RangeError.fillRate, .maxDebt, .maxIdle, .size].filter fun e => e.IsOut b))

/-- A namespace with a key breaks a rule. -/
inductive NamespaceConfig.Breaks (ns : NamespaceConfig) (key : String) : Spot → Violation → Prop
  | key (h : key ≠ ns.name) : Breaks ns key (.key key) (.otherKey key ns.name)
  | name {v : Violation} (h : NameKind.ns.Breaks key v) : Breaks ns key (.name key) v
  | fallback {b : BucketConfig} {rule : BucketRule} {v : Violation}
    (hb : ns.defaultBucket = some b) (h : b.Breaks s!"{key} default bucket" rule v) :
    Breaks ns key (.fallback key rule) v
  | template {b : BucketConfig} {v : Violation} (hb : ns.template = some b)
    (h : b.Breaks s!"{key} dynamic bucket template" .ranges v) : Breaks ns key (.template key) v
  | bucketName {name : String} {b : BucketConfig} {v : Violation}
    (hb : ns.buckets.get? name = some b) (h : NameKind.bucket.Breaks name v) :
    Breaks ns key (.bucketName key name) v
  | bucket {name : String} {b : BucketConfig} {rule : BucketRule} {v : Violation}
    (hb : ns.buckets.get? name = some b) (h : b.Breaks s!"{key}:{name}" rule v) :
    Breaks ns key (.bucket key name rule) v

/-- A configuration breaks a rule at a place. -/
inductive ServiceConfig.Breaks (c : ServiceConfig) : Spot → Violation → Prop
  | globalDefault {b : BucketConfig} {rule : BucketRule} {v : Violation}
    (hb : c.globalDefault = some b) (h : b.Breaks "global default bucket" rule v) :
    Breaks c (.globalDefault rule) v
  | within {key : String} {ns : NamespaceConfig} {spot : Spot} {v : Violation}
    (hns : c.namespaces.get? key = some ns) (h : ns.Breaks key spot v) : Breaks c spot v

/-- A check reports nothing if no rule is broken, and otherwise the only violation at the place that
comes before all others. -/
inductive Finds (broken : Spot → Violation → Prop) : Except Violation Unit → Prop
  | nothing (h : ∀ spot v, ¬broken spot v) : Finds broken (.ok ())
  | first {spot : Spot} {v : Violation} (h : broken spot v)
    (hfirst : ∀ spot' v', broken spot' v' →
      (spot' = spot ∧ v' = v) ∨ spot.place < spot'.place) : Finds broken (.error v)

section Checks

variable {α : Type} {broken broken' : Spot → Violation → Prop} {x y : Except Violation Unit}

theorem Finds.congr (h : Finds broken x) (hiff : ∀ spot v, broken' spot v ↔ broken spot v) :
    Finds broken' x := by
  obtain rfl : broken' = broken := funext fun spot => funext fun v => propext (hiff spot v)
  exact h

theorem finds_rule (p : Prop) [Decidable p] (spot : Spot) (v : Violation) :
    Finds (fun spot' v' => spot' = spot ∧ v' = v ∧ p) (if p then .error v else .ok ()) := by
  split
  · rename_i hp
    refine @Finds.first _ spot v ⟨rfl, rfl, hp⟩ ?_
    rintro spot' v' ⟨rfl, rfl, -⟩
    exact .inl ⟨rfl, rfl⟩
  · rename_i hp
    exact .nothing fun spot' v' h => hp h.2.2

/-- A check that goes on with another one, about places that come later. -/
theorem Finds.andThen (hx : Finds broken x) (hy : Finds broken' y)
    (hbefore : ∀ spot v spot' v', broken spot v → broken' spot' v' → spot.place < spot'.place) :
    Finds (fun spot v => broken spot v ∨ broken' spot v) (x >>= fun _ => y) := by
  cases hx with
  | nothing hnone => exact hy.congr fun spot v => or_iff_right (hnone spot v)
  | first h hfirst =>
      refine .first (.inl h) ?_
      rintro spot' v' (hbroken | hbroken)
      · exact hfirst spot' v' hbroken
      · exact .inr (hbefore _ _ _ _ h hbroken)

theorem finds_forM {f : α → Except Violation Unit} {brokenIn : α → Spot → Violation → Prop}
    {l : List α} (hf : ∀ a ∈ l, Finds (brokenIn a) (f a))
    (hordered : l.Pairwise fun a b => ∀ spot v spot' v', brokenIn a spot v →
      brokenIn b spot' v' → spot.place < spot'.place) :
    Finds (fun spot v => ∃ a ∈ l, brokenIn a spot v) (l.forM f) := by
  induction l with
  | nil => exact .nothing fun spot v h => by simp at h
  | cons a rest ih =>
      obtain ⟨hfirst, hlater⟩ := List.pairwise_cons.mp hordered
      have hrest := ih (fun b hb => hf b (List.mem_cons_of_mem a hb)) hlater
      refine ((hf a List.mem_cons_self).andThen hrest ?_).congr ?_
      · rintro spot v spot' v' ha ⟨b, hb, hbroken⟩
        exact hfirst b hb spot v spot' v' ha hbroken
      · exact fun spot v => List.exists_mem_cons_iff _ _ _

theorem finds_optional {check : BucketConfig → Except Violation Unit}
    {brokenIn : BucketConfig → Spot → Violation → Prop} (hcheck : ∀ b, Finds (brokenIn b) (check b))
    (o : Option BucketConfig) :
    Finds (fun spot v => ∃ b, o = some b ∧ brokenIn b spot v) (checkOptional check o) := by
  cases o with
  | none => exact .nothing fun spot v h => by simp at h
  | some b => exact (hcheck b).congr fun spot v => by simp

end Checks

theorem isAlphanum_iff {ch : Char} : ch.isAlphanum = true ↔
    (('A' ≤ ch ∧ ch ≤ 'Z') ∨ ('a' ≤ ch ∧ ch ≤ 'z')) ∨ ('0' ≤ ch ∧ ch ≤ '9') := by
  have hupper : ch.isUpper = true ↔ 'A' ≤ ch ∧ ch ≤ 'Z' := decide_eq_true_iff
  have hlower : ch.isLower = true ↔ 'a' ≤ ch ∧ ch ≤ 'z' :=
    Bool.and_eq_true_iff.trans (and_congr decide_eq_true_iff decide_eq_true_iff)
  have hdigit : ch.isDigit = true ↔ '0' ≤ ch ∧ ch ≤ '9' :=
    Bool.and_eq_true_iff.trans (and_congr decide_eq_true_iff decide_eq_true_iff)
  rw [← hupper, ← hlower, ← hdigit]
  exact Bool.or_eq_true_iff.trans (or_congr_left Bool.or_eq_true_iff)

theorem isNameChar_iff {ch : Char} : isNameChar ch = true ↔ IsNameMark ch := by
  simp only [isNameChar, IsNameMark, Bool.or_eq_true, beq_iff_eq, isAlphanum_iff]
  tauto

theorem isNameText_iff {name : String} :
    IsNameText name ↔ (name.isEmpty || !name.toList.all isNameChar) = false := by
  simp [IsNameText, ← isNameChar_iff]

theorem isNameText_of_isReserved {name : String} (h : IsReserved name) : IsNameText name := by
  rcases h with rfl | rfl
  · exact isNameText_iff.mpr (by decide)
  · exact isNameText_iff.mpr (by decide)

theorem finds_checkName (kind : NameKind) (name : String) (spot : Spot) :
    Finds (fun spot' v => spot' = spot ∧ kind.Breaks name v) (checkName kind name) := by
  unfold checkName
  split
  · rename_i hbad
    have hmalformed : ¬IsNameText name := by rw [isNameText_iff, hbad]; simp
    refine .first ⟨rfl, .malformed hmalformed⟩ ?_
    rintro spot' v ⟨rfl, hv⟩
    cases hv with
    | malformed h => exact .inl ⟨rfl, rfl⟩
    | reserved h => exact absurd (isNameText_of_isReserved h) hmalformed
  · rename_i hgood
    have htext : IsNameText name := isNameText_iff.mpr (by simpa using hgood)
    split
    · rename_i hreserved
      refine .first ⟨rfl, .reserved hreserved⟩ ?_
      rintro spot' v ⟨rfl, hv⟩
      cases hv with
      | malformed h => exact absurd htext h
      | reserved h => exact .inl ⟨rfl, rfl⟩
    · rename_i hfree
      refine .nothing ?_
      rintro spot' v ⟨-, hv⟩
      cases hv with
      | malformed h => exact h htext
      | reserved h => exact hfree h

namespace BucketConfig

variable (b : BucketConfig) (location : String)

theorem inRanges_iff : b.InRanges ↔ ∀ e, ¬RangeError.IsOut b e := by
  constructor
  · rintro ⟨hrate, hsize, hidle, hdebt⟩ e
    cases e with
    | fillRate => exact not_not_intro hrate
    | maxDebt => exact not_not_intro hdebt
    | maxIdle => exact not_not_intro hidle
    | size => exact not_not_intro hsize
  · intro h
    exact ⟨not_not.mp (h .fillRate), not_not.mp (h .size), not_not.mp (h .maxIdle),
      not_not.mp (h .maxDebt)⟩

theorem rangeErrors_eq : b.rangeErrors =
    [RangeError.fillRate, .maxDebt, .maxIdle, .size].filter fun e => e.IsOut b := by
  have hone {e : RangeError} {p : Prop} [Decidable p] (h : e.IsOut b ↔ ¬p) :
      [e].filter (fun e => e.IsOut b) = if p then [] else [e] := by
    by_cases hp : p <;> simp [h, hp]
  change _ = ([RangeError.fillRate] ++ [RangeError.maxDebt] ++ [RangeError.maxIdle] ++
    [RangeError.size]).filter _
  rw [List.filter_append, List.filter_append, List.filter_append, hone (e := .fillRate) Iff.rfl,
    hone (e := .maxDebt) Iff.rfl, hone (e := .maxIdle) Iff.rfl, hone (e := .size) Iff.rfl]
  rfl

theorem rangeErrors_eq_nil_iff : b.rangeErrors = [] ↔ b.InRanges := by
  rw [rangeErrors_eq, List.filter_eq_nil_iff, inRanges_iff]
  simp only [decide_eq_true_eq]
  refine ⟨fun h e => h e ?_, fun h e _ => h e⟩
  cases e <;> simp

theorem finds_checkRanges (spot : Spot) :
    Finds (fun spot' v => spot' = spot ∧ b.Breaks location .ranges v)
      (b.checkRanges location) := by
  unfold checkRanges
  split
  · rename_i hnone
    have hin : b.InRanges := b.rangeErrors_eq_nil_iff.mp (by simpa using hnone)
    refine .nothing ?_
    rintro spot' v ⟨-, ⟨⟩⟩
    contradiction
  · rename_i hsome
    have hout : ¬b.InRanges := by
      rw [← rangeErrors_eq_nil_iff]
      simpa using hsome
    rw [rangeErrors_eq]
    refine .first ⟨rfl, .ranges hout⟩ ?_
    rintro spot' v ⟨rfl, ⟨⟩⟩
    exact .inl ⟨rfl, rfl⟩

/-- A bucket that is no template is checked for its mark first. -/
theorem finds_checkStatic (spot : BucketRule → Spot)
    (hspot : (spot .flag).place < (spot .ranges).place) :
    Finds (fun spot' v => ∃ rule, spot' = spot rule ∧ b.Breaks location rule v)
      (b.checkStatic location) := by
  have hcheck : b.checkStatic location =
      ((if b.dynamic = true then .error (.markedDynamic location) else .ok ()) >>=
        fun _ => b.checkRanges location) := by
    unfold checkStatic
    split <;> rfl
  rw [hcheck]
  refine ((finds_rule (b.dynamic = true) (spot .flag) (.markedDynamic location)).andThen
    (b.finds_checkRanges location (spot .ranges)) ?_).congr ?_
  · rintro _ _ _ _ ⟨rfl, -, -⟩ ⟨rfl, -⟩
    exact hspot
  · intro spot' v
    constructor
    · rintro ⟨rule, rfl, hbreaks⟩
      cases hbreaks with
      | flag h => exact .inl ⟨rfl, rfl, h⟩
      | ranges h => exact .inr ⟨rfl, .ranges h⟩
    · rintro (⟨rfl, rfl, h⟩ | ⟨rfl, h⟩)
      · exact ⟨.flag, rfl, .flag h⟩
      · exact ⟨.ranges, rfl, h⟩

end BucketConfig

namespace Spot

variable {ns ns' bucket bucket' : WithBot String} {part part' m n : ℕ}

theorem lt_of_ns {x y : ℕ ×ₗ WithBot String ×ₗ ℕ} (h : ns < ns') :
    (toLex (ns, x) : Position) < toLex (ns', y) :=
  Prod.Lex.toLex_lt_toLex.mpr (.inl h)

theorem lt_of_part {x y : WithBot String ×ₗ ℕ} (h : part < part') :
    (toLex (ns, toLex (part, x)) : Position) < toLex (ns, toLex (part', y)) :=
  Prod.Lex.toLex_lt_toLex.mpr (.inr ⟨rfl, Prod.Lex.toLex_lt_toLex.mpr (.inl h)⟩)

theorem lt_of_bucket (h : bucket < bucket') :
    (toLex (ns, toLex (part, toLex (bucket, m))) : Position) <
      toLex (ns, toLex (part, toLex (bucket', n))) :=
  Prod.Lex.toLex_lt_toLex.mpr (.inr ⟨rfl, Prod.Lex.toLex_lt_toLex.mpr
    (.inr ⟨rfl, Prod.Lex.toLex_lt_toLex.mpr (.inl h)⟩)⟩)

theorem lt_of_rank (h : m < n) :
    (toLex (ns, toLex (part, toLex (bucket, m))) : Position) <
      toLex (ns, toLex (part, toLex (bucket, n))) :=
  Prod.Lex.toLex_lt_toLex.mpr (.inr ⟨rfl, Prod.Lex.toLex_lt_toLex.mpr
    (.inr ⟨rfl, Prod.Lex.toLex_lt_toLex.mpr (.inr ⟨rfl, h⟩)⟩)⟩)

end Spot

namespace NamespaceConfig

variable (ns : NamespaceConfig) (key : String)

/-- The rules for one bucket of a namespace: first its name. -/
theorem finds_checkBucket (name : String) (b : BucketConfig) :
    Finds (fun spot v => (spot = .bucketName key name ∧ NameKind.bucket.Breaks name v) ∨
        ∃ rule, spot = .bucket key name rule ∧ b.Breaks s!"{key}:{name}" rule v)
      (checkName .bucket name >>= fun _ => b.checkStatic s!"{key}:{name}") := by
  refine (finds_checkName .bucket name (.bucketName key name)).andThen
    (b.finds_checkStatic s!"{key}:{name}" (.bucket key name) (Spot.lt_of_rank (by decide))) ?_
  rintro _ _ _ _ ⟨rfl, -⟩ ⟨rule, rfl, -⟩
  cases rule with
  | flag => exact Spot.lt_of_rank (by decide)
  | ranges => exact Spot.lt_of_rank (by decide)

theorem finds_checkBuckets :
    Finds (fun spot v => ∃ e ∈ ns.buckets.entries,
        (spot = .bucketName key e.1 ∧ NameKind.bucket.Breaks e.1 v) ∨
          ∃ rule, spot = .bucket key e.1 rule ∧ e.2.Breaks s!"{key}:{e.1}" rule v)
      (ns.buckets.entries.forM fun (name, bucket) => do
        checkName .bucket name
        bucket.checkStatic s!"{key}:{name}") := by
  refine finds_forM (fun e _ => finds_checkBucket key e.1 e.2) (ns.buckets.sorted.imp ?_)
  rintro e e' hlt _ _ _ _ (⟨rfl, -⟩ | ⟨rule, rfl, -⟩) (⟨rfl, -⟩ | ⟨rule', rfl, -⟩)
  all_goals exact Spot.lt_of_bucket (WithBot.coe_lt_coe.mpr hlt)

theorem check_eq : ns.check key =
    ((if key ≠ ns.name then .error (.otherKey key ns.name) else .ok ()) >>= fun _ =>
      checkName .ns key >>= fun _ =>
      checkOptional (BucketConfig.checkStatic s!"{key} default bucket") ns.defaultBucket >>= fun _ =>
      checkOptional (BucketConfig.checkRanges s!"{key} dynamic bucket template") ns.template >>=
        fun _ => ns.buckets.entries.forM fun (name, bucket) => do
          checkName .bucket name
          bucket.checkStatic s!"{key}:{name}") := by
  unfold check
  dsimp only
  split <;> rfl

/-- The rules for a namespace are checked in the order of its parts. -/
theorem finds_check : Finds (ns.Breaks key) (ns.check key) := by
  rw [check_eq]
  have hkey := finds_rule (key ≠ ns.name) (.key key) (.otherKey key ns.name)
  have hname := finds_checkName .ns key (.name key)
  have hfallback := finds_optional (fun b => b.finds_checkStatic s!"{key} default bucket"
    (.fallback key) (Spot.lt_of_rank (by decide))) ns.defaultBucket
  have htemplate := finds_optional (fun b =>
    b.finds_checkRanges s!"{key} dynamic bucket template" (.template key)) ns.template
  refine (hkey.andThen (hname.andThen (hfallback.andThen
    (htemplate.andThen (ns.finds_checkBuckets key) ?_) ?_) ?_) ?_).congr ?_
  · rintro _ _ _ _ ⟨b, -, rfl, -⟩ ⟨e, -, ⟨rfl, -⟩ | ⟨rule, rfl, -⟩⟩
    all_goals exact Spot.lt_of_part (by decide)
  · rintro _ _ _ _ ⟨b, -, rule, rfl, -⟩ (⟨b', -, rfl, -⟩ | ⟨e, -, ⟨rfl, -⟩ | ⟨rule', rfl, -⟩⟩)
    all_goals exact Spot.lt_of_part (by decide)
  · rintro _ _ _ _ ⟨rfl, -⟩
      (⟨b, -, rule, rfl, -⟩ | ⟨b', -, rfl, -⟩ | ⟨e, -, ⟨rfl, -⟩ | ⟨rule', rfl, -⟩⟩)
    all_goals exact Spot.lt_of_part (by decide)
  · rintro _ _ _ _ ⟨rfl, -⟩
      (⟨rfl, -⟩ | ⟨b, -, rule, rfl, -⟩ | ⟨b', -, rfl, -⟩ | ⟨e, -, ⟨rfl, -⟩ | ⟨rule', rfl, -⟩⟩)
    all_goals exact Spot.lt_of_part (by decide)
  · intro spot v
    constructor
    · intro h
      cases h with
      | key h => exact .inl ⟨rfl, rfl, h⟩
      | name h => exact .inr (.inl ⟨rfl, h⟩)
      | fallback hb h => exact .inr (.inr (.inl ⟨_, hb, _, rfl, h⟩))
      | template hb h => exact .inr (.inr (.inr (.inl ⟨_, hb, rfl, h⟩)))
      | bucketName hb h =>
          exact .inr (.inr (.inr (.inr ⟨_, NameMap.get?_eq_some_iff.mp hb, .inl ⟨rfl, h⟩⟩)))
      | bucket hb h =>
          exact .inr (.inr (.inr (.inr ⟨_, NameMap.get?_eq_some_iff.mp hb, .inr ⟨_, rfl, h⟩⟩)))
    · rintro (⟨rfl, rfl, h⟩ | ⟨rfl, h⟩ | ⟨b, hb, rule, rfl, h⟩ | ⟨b, hb, rfl, h⟩ |
        ⟨e, he, ⟨rfl, h⟩ | ⟨rule, rfl, h⟩⟩)
      · exact .key h
      · exact .name h
      · exact .fallback hb h
      · exact .template hb h
      · exact .bucketName (NameMap.get?_eq_some_iff.mpr he) h
      · exact .bucket (NameMap.get?_eq_some_iff.mpr he) h

/-- Every place at which a namespace may break a rule is in this namespace. -/
theorem Breaks.place_eq {ns : NamespaceConfig} {key : String} {spot : Spot} {v : Violation}
    (h : ns.Breaks key spot v) : ∃ x, spot.place = toLex (↑key, x) := by
  cases h <;> exact ⟨_, rfl⟩

end NamespaceConfig

namespace ServiceConfig

variable (c : ServiceConfig)

theorem finds_check : Finds c.Breaks c.check := by
  have hglobal := finds_optional (fun b => b.finds_checkStatic "global default bucket"
    .globalDefault (Spot.lt_of_rank (by decide))) c.globalDefault
  have hnamespaces : Finds (fun spot v => ∃ e ∈ c.namespaces.entries, e.2.Breaks e.1 spot v)
      (c.namespaces.entries.forM fun e => e.2.check e.1) := by
    refine finds_forM (fun e _ => e.2.finds_check e.1) (c.namespaces.sorted.imp ?_)
    intro e e' hlt spot v spot' v' h h'
    obtain ⟨x, hx⟩ := h.place_eq
    obtain ⟨x', hx'⟩ := h'.place_eq
    rw [hx, hx']
    exact Spot.lt_of_ns (WithBot.coe_lt_coe.mpr hlt)
  refine (hglobal.andThen hnamespaces ?_).congr ?_
  · rintro _ v spot' v' ⟨b, -, rule, rfl, -⟩ ⟨e, -, h⟩
    obtain ⟨x, hx⟩ := h.place_eq
    rw [hx]
    exact Spot.lt_of_ns (WithBot.bot_lt_coe e.1)
  · intro spot v
    constructor
    · intro h
      cases h with
      | globalDefault hb h => exact .inl ⟨_, hb, _, rfl, h⟩
      | within hns h => exact .inr ⟨_, NameMap.get?_eq_some_iff.mp hns, h⟩
    · rintro (⟨b, hb, rule, rfl, h⟩ | ⟨e, he, h⟩)
      · exact .globalDefault hb h
      · exact .within (NameMap.get?_eq_some_iff.mpr he) h

variable {c}

theorem WellFormed.not_breaks (h : c.WellFormed) (spot : Spot) (v : Violation) :
    ¬c.Breaks spot v := by
  have hbucket : ∀ {b : BucketConfig} {location : String} {rule : BucketRule} {v : Violation},
      c.Has false b → ¬b.Breaks location rule v := by
    rintro b location rule v hhas (hflag | hranges)
    · exact absurd hflag (by simp [h.unmarked b hhas])
    · exact hranges (h.inRanges false b hhas)
  have hname : ∀ {kind : NameKind} {name : String} {v : Violation}, IsFreeName name →
      ¬kind.Breaks name v := by
    rintro kind name v ⟨htext, hfree⟩ (hmalformed | hreserved)
    · exact hmalformed htext
    · exact hfree hreserved
  rintro (⟨hb, hbreaks⟩ | ⟨hns, hbreaks⟩)
  · exact hbucket (.globalDefault hb) hbreaks
  · cases hbreaks with
    | key hne => exact hne (h.keyed _ _ hns)
    | name hbreaks => exact hname (h.namespaces _ _ hns) hbreaks
    | fallback hb hbreaks => exact hbucket (.fallback hns hb) hbreaks
    | template hb hbreaks =>
        cases hbreaks with
        | ranges hout => exact hout (h.inRanges true _ (.template hns hb))
    | bucketName hb hbreaks => exact hname (h.buckets _ _ _ _ hns hb) hbreaks
    | bucket hb hbreaks => exact hbucket (.named hns hb) hbreaks

theorem wellFormed_of_not_breaks (h : ∀ spot v, ¬c.Breaks spot v) : c.WellFormed := by
  -- Whatever rule for names or buckets were not met, there would be a violation to report.
  have hname : ∀ {kind : NameKind} {name : String}, (∀ v, ¬kind.Breaks name v) →
      IsFreeName name :=
    fun hnone => ⟨by_contra fun hbad => hnone _ (.malformed hbad),
      fun hreserved => hnone _ (.reserved hreserved)⟩
  have hin : ∀ {b : BucketConfig} {location : String}, (∀ v, ¬b.Breaks location .ranges v) →
      b.InRanges :=
    fun hnone => by_contra fun hout => hnone _ (.ranges hout)
  have hflag : ∀ {b : BucketConfig} {location : String}, (∀ v, ¬b.Breaks location .flag v) →
      b.dynamic = false :=
    fun hnone => Bool.eq_false_iff.mpr fun hmarked => hnone _ (.flag hmarked)
  constructor
  · exact fun key ns hns => by_contra fun hne => h _ _ (.within hns (.key hne))
  · exact fun key ns hns => hname fun v hbreaks => h _ _ (.within hns (.name hbreaks))
  · exact fun key ns name b hns hb =>
      hname fun v hbreaks => h _ _ (.within hns (.bucketName hb hbreaks))
  · rintro template b (hb | ⟨hns, hb⟩ | ⟨hns, hb⟩ | ⟨hns, hb⟩)
    · exact hin fun v hbreaks => h _ _ (.globalDefault hb hbreaks)
    · exact hin fun v hbreaks => h _ _ (.within hns (.fallback hb hbreaks))
    · exact hin fun v hbreaks => h _ _ (.within hns (.template hb hbreaks))
    · exact hin fun v hbreaks => h _ _ (.within hns (.bucket hb hbreaks))
  · rintro b (hb | ⟨hns, hb⟩ | - | ⟨hns, hb⟩)
    · exact hflag fun v hbreaks => h _ _ (.globalDefault hb hbreaks)
    · exact hflag fun v hbreaks => h _ _ (.within hns (.fallback hb hbreaks))
    · exact hflag fun v hbreaks => h _ _ (.within hns (.bucket hb hbreaks))

/-- A check accepts exactly the configurations that are well formed. If it refuses one, it reports
the violation at the first of all places at which a rule is broken. -/
theorem check_exact (c : ServiceConfig) : (c.check = .ok () ↔ c.WellFormed) ∧
    ∀ v, c.check = .error v ↔
      ∃ spot, c.Breaks spot v ∧ ∀ spot' v', c.Breaks spot' v' → spot.place ≤ spot'.place := by
  generalize hcheck : c.check = result
  have hfinds : Finds c.Breaks result := hcheck ▸ c.finds_check
  cases hfinds with
  | nothing hnone =>
      refine ⟨iff_of_true rfl (wellFormed_of_not_breaks hnone), fun v => iff_of_false nofun ?_⟩
      rintro ⟨spot, hbreaks, -⟩
      exact hnone spot v hbreaks
  | @first spot w hbreaks hfirst =>
      refine ⟨iff_of_false nofun fun hwell => hwell.not_breaks spot w hbreaks, fun v => ⟨?_, ?_⟩⟩
      · rintro ⟨⟩
        refine ⟨spot, hbreaks, fun spot' v' hbreaks' => ?_⟩
        rcases hfirst spot' v' hbreaks' with ⟨rfl, -⟩ | hlt
        · exact le_refl _
        · exact le_of_lt hlt
      · rintro ⟨spot', hbreaks', hleast⟩
        rcases hfirst spot' v hbreaks' with ⟨-, rfl⟩ | hlt
        · rfl
        · exact absurd hlt (not_lt_of_ge (hleast spot w hbreaks))

end ServiceConfig

end TokenQuota
