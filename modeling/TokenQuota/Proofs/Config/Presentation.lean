import TokenQuota.Proofs.Config.ReadBack
import TokenQuota.Proofs.Json.Layout

/-!
A configuration is read from every text that shows it: the members of its objects may come in any
order, fields may be missing that have their default values, absent buckets may be null, and other
members are passed over at every level.
-/

namespace TokenQuota

open Json Json.Reader

variable {α : Type}

/-! ### Optional fields -/

/-- An absent value is null. -/
def OptionalText (texts : α → Bytes → Prop) : Option α → Bytes → Prop
  | none, text => text = nullWord
  | some a, text => texts a text

theorem reads_null (reader : Reader α) : (Reader.optional reader).Reads nullWord none := by
  intro rest _
  have hlook : look (nullWord ++ rest) = .ok (some 0x6E, nullWord ++ rest) :=
    look_cons (by decide) _
  rw [Reader.optional, bind_of_ok hlook, if_pos rfl, bind_of_ok (word_append nullWord rest)]
  rfl

theorem takes_field {reader : Reader α} {text : Bytes} {a : α} {before : Option α}
    (hbefore : before = none) (hreads : reader.Reads text a) (hpatient : Patient reader)
    (name : String) : Takes (field name before reader) text a := by
  subst hbefore
  exact takes_value (fun w hw => hreads.blank hpatient hw) name

theorem takes_unknown {δ : Type} {text : Bytes} (h : IsJson text) (name : String) (d : δ) :
    Takes (do
      value name skip
      return d) text d := by
  intro w w' rest hw hw' hrest
  exact bind_of_ok (takes_value (fun w hw => reads_skip h hw) name w w' rest hw hw' hrest)

theorem getD_of_missing {p : Prop} [Decidable p] {a default : α} (h : ¬p → a = default) :
    (if p then some a else none).getD default = a := by
  split
  · rfl
  · rename_i hmissing
    exact (h hmissing).symm

theorem join_of_missing {p : Prop} [Decidable p] {o : Option α} (h : ¬p → o = none) :
    (if p then some o else none).join = o := by
  split
  · rfl
  · rename_i hmissing
    exact (h hmissing).symm

/-! ### Buckets -/

namespace BucketConfig

variable (b : BucketConfig)

def fields : List Field := [
  ⟨"fill_rate", (· = Digits.ofInt b.fillRate.toInt), False⟩,
  ⟨"size", (· = Digits.ofInt b.size.toInt), False⟩,
  ⟨"max_idle_millis", (· = Digits.ofInt b.maxIdleMillis.toInt), b.maxIdleMillis = 0⟩,
  ⟨"max_debt_millis", (· = Digits.ofInt b.maxDebtMillis.toInt), b.maxDebtMillis = 0⟩,
  ⟨"dynamic", (· = writeBoolean b.dynamic), b.dynamic = false⟩]

def IsText (text : Bytes) : Prop := IsRecord b.fields text

/-- The draft of the bucket when members of these names were read. -/
def draft (seen : List String) : Draft where
  fillRate := if "fill_rate" ∈ seen then some b.fillRate else none
  size := if "size" ∈ seen then some b.size else none
  maxIdleMillis := if "max_idle_millis" ∈ seen then some b.maxIdleMillis else none
  maxDebtMillis := if "max_debt_millis" ∈ seen then some b.maxDebtMillis else none
  dynamic := if "dynamic" ∈ seen then some b.dynamic else none

theorem takes_known : ∀ f ∈ b.fields, ∀ seen text, f.name ∉ seen → f.texts text →
    Takes (bucketMember (b.draft seen) f.name) text (b.draft (f.name :: seen)) := by
  simp only [fields, List.forall_mem_cons, List.not_mem_nil, false_implies, implies_true, and_true]
  refine ⟨?_, ?_, ?_, ?_, ?_⟩
  · rintro seen _ hnew rfl
    have hdraft : b.draft ("fill_rate" :: seen) =
        { b.draft seen with fillRate := some b.fillRate } := by simp [draft]
    rw [hdraft]
    exact (takes_field (if_neg hnew) (reads_signed b.fillRate) patient_signed _).map _
  · rintro seen _ hnew rfl
    have hdraft : b.draft ("size" :: seen) =
        { b.draft seen with size := some b.size } := by simp [draft]
    rw [hdraft]
    exact (takes_field (if_neg hnew) (reads_signed b.size) patient_signed _).map _
  · rintro seen _ hnew rfl
    have hdraft : b.draft ("max_idle_millis" :: seen) =
        { b.draft seen with maxIdleMillis := some b.maxIdleMillis } := by simp [draft]
    rw [hdraft]
    exact (takes_field (if_neg hnew) (reads_signed b.maxIdleMillis) patient_signed _).map _
  · rintro seen _ hnew rfl
    have hdraft : b.draft ("max_debt_millis" :: seen) =
        { b.draft seen with maxDebtMillis := some b.maxDebtMillis } := by simp [draft]
    rw [hdraft]
    exact (takes_field (if_neg hnew) (reads_signed b.maxDebtMillis) patient_signed _).map _
  · rintro seen _ hnew rfl
    have hdraft : b.draft ("dynamic" :: seen) =
        { b.draft seen with dynamic := some b.dynamic } := by simp [draft]
    rw [hdraft]
    exact (takes_field (if_neg hnew) (reads_boolean b.dynamic) patient_boolean _).map _

theorem takes_other {name : String} (hname : ∀ f ∈ b.fields, f.name ≠ name) (seen : List String)
    {text : Bytes} (htext : IsJson text) :
    Takes (bucketMember (b.draft seen) name) text (b.draft (name :: seen)) := by
  simp only [fields, List.forall_mem_cons, List.not_mem_nil, false_implies, implies_true,
    and_true] at hname
  obtain ⟨h₁, h₂, h₃, h₄, h₅⟩ := hname
  have hdraft : b.draft (name :: seen) = b.draft seen := by
    simp [draft, h₁, h₂, h₃, h₄, h₅]
  rw [hdraft, bucketMember]
  · exact takes_unknown htext name _
  exacts [Ne.symm h₁, Ne.symm h₂, Ne.symm h₃, Ne.symm h₄, Ne.symm h₅]

theorem finish_draft {seen : List String} (h : ∀ f ∈ b.fields, f.name ∉ seen → f.spare) :
    (b.draft seen).finish = .ok b := by
  simp only [fields, List.forall_mem_cons, List.not_mem_nil, false_implies, implies_true,
    and_true] at h
  obtain ⟨hrate, hsize, hidle, hdebt, hdynamic⟩ := h
  simp only [Draft.finish, draft, if_pos (not_not.mp hrate), if_pos (not_not.mp hsize),
    getD_of_missing hidle, getD_of_missing hdebt, getD_of_missing hdynamic]

theorem patient_bucketConfig : Patient bucketConfig := patient_record _ _ _

variable {b}

theorem IsText.reads {text : Bytes} (h : b.IsText text) : bucketConfig.Reads text b := by
  obtain ⟨seen, hspare, hmembers⟩ := h.read b.takes_known fun _ hname seen _ =>
    b.takes_other hname seen
  refine reads_record h.exists_cons fun rest => (bind_of_ok (hmembers rest)).trans ?_
  rw [b.finish_draft hspare]
  rfl

theorem isText_write (b : BucketConfig) : b.IsText b.write :=
  Writes.isRecord (.cons rfl (.cons rfl (.cons rfl (.cons rfl (.cons rfl .nil)))))
    (by simp [fields])

end BucketConfig

/-- A bucket is written only when there is one. -/
theorem writes_optional (o : Option BucketConfig) (name : String) {fields : List Field}
    {members : List (String × Bytes)} (h : Writes fields members) :
    Writes (⟨name, OptionalText BucketConfig.IsText o, o = none⟩ :: fields)
      ((o.map fun b => (name, b.write)).toList ++ members) := by
  cases o with
  | none => exact .skip rfl h
  | some b => exact .cons b.isText_write h

theorem OptionalText.reads {o : Option BucketConfig} {text : Bytes}
    (h : OptionalText BucketConfig.IsText o text) :
    (Reader.optional bucketConfig).Reads text o := by
  cases o with
  | none =>
      cases h
      exact reads_null bucketConfig
  | some b =>
      have htext : b.IsText text := h
      exact reads_optional htext.exists_cons htext.reads

/-! ### Namespaces -/

namespace NamespaceConfig

variable (ns : NamespaceConfig)

def fields : List Field := [
  ⟨"name", IsString ns.name, False⟩,
  ⟨"default_bucket", OptionalText BucketConfig.IsText ns.defaultBucket, ns.defaultBucket = none⟩,
  ⟨"dynamic_bucket_template", OptionalText BucketConfig.IsText ns.template, ns.template = none⟩,
  ⟨"max_dynamic_buckets", (· = Digits.ofNat ns.maxDynamic.toNat), ns.maxDynamic = 0⟩,
  ⟨"buckets", IsMap BucketConfig.IsText ns.buckets, ns.buckets = ∅⟩]

def IsText (text : Bytes) : Prop := IsRecord ns.fields text

/-- The draft of the namespace when members of these names were read. -/
def draft (seen : List String) : Draft where
  name := if "name" ∈ seen then some ns.name else none
  defaultBucket := if "default_bucket" ∈ seen then some ns.defaultBucket else none
  template := if "dynamic_bucket_template" ∈ seen then some ns.template else none
  maxDynamic := if "max_dynamic_buckets" ∈ seen then some ns.maxDynamic else none
  buckets := if "buckets" ∈ seen then some ns.buckets else none

theorem takes_known : ∀ f ∈ ns.fields, ∀ seen text, f.name ∉ seen → f.texts text →
    Takes (namespaceMember (ns.draft seen) f.name) text (ns.draft (f.name :: seen)) := by
  simp only [fields, List.forall_mem_cons, List.not_mem_nil, false_implies, implies_true, and_true]
  refine ⟨?_, ?_, ?_, ?_, ?_⟩
  · rintro seen _ hnew htext
    have hdraft : ns.draft ("name" :: seen) =
        { ns.draft seen with name := some ns.name } := by simp [draft]
    rw [hdraft]
    exact (takes_field (if_neg hnew) htext.reads patient_text _).map _
  · rintro seen _ hnew htext
    have hdraft : ns.draft ("default_bucket" :: seen) =
        { ns.draft seen with defaultBucket := some ns.defaultBucket } := by simp [draft]
    have hnone : (ns.draft seen).defaultBucket = none := if_neg hnew
    have hfield :=
      takes_field hnone htext.reads (patient_optional bucketConfig) "default_bucket"
    rw [hdraft]
    exact hfield.map fun o => { ns.draft seen with defaultBucket := some o }
  · rintro seen _ hnew htext
    have hdraft : ns.draft ("dynamic_bucket_template" :: seen) =
        { ns.draft seen with template := some ns.template } := by simp [draft]
    have hnone : (ns.draft seen).template = none := if_neg hnew
    have hfield :=
      takes_field hnone htext.reads (patient_optional bucketConfig) "dynamic_bucket_template"
    rw [hdraft]
    exact hfield.map fun o => { ns.draft seen with template := some o }
  · rintro seen _ hnew rfl
    have hdraft : ns.draft ("max_dynamic_buckets" :: seen) =
        { ns.draft seen with maxDynamic := some ns.maxDynamic } := by simp [draft]
    rw [hdraft]
    exact (takes_field (if_neg hnew) (reads_count ns.maxDynamic) patient_count _).map _
  · rintro seen _ hnew htext
    have hdraft : ns.draft ("buckets" :: seen) =
        { ns.draft seen with buckets := some ns.buckets } := by simp [draft]
    rw [hdraft]
    have hreads := htext.reads BucketConfig.patient_bucketConfig fun _ _ h => h.reads
    exact (takes_field (if_neg hnew) hreads (patient_object _ _) _).map _

theorem takes_other {name : String} (hname : ∀ f ∈ ns.fields, f.name ≠ name) (seen : List String)
    {text : Bytes} (htext : IsJson text) :
    Takes (namespaceMember (ns.draft seen) name) text (ns.draft (name :: seen)) := by
  simp only [fields, List.forall_mem_cons, List.not_mem_nil, false_implies, implies_true,
    and_true] at hname
  obtain ⟨h₁, h₂, h₃, h₄, h₅⟩ := hname
  have hdraft : ns.draft (name :: seen) = ns.draft seen := by
    simp [draft, h₁, h₂, h₃, h₄, h₅]
  rw [hdraft, namespaceMember]
  · exact takes_unknown htext name _
  exacts [Ne.symm h₁, Ne.symm h₂, Ne.symm h₃, Ne.symm h₄, Ne.symm h₅]

theorem finish_draft {seen : List String} (h : ∀ f ∈ ns.fields, f.name ∉ seen → f.spare) :
    (ns.draft seen).finish = .ok ns := by
  simp only [fields, List.forall_mem_cons, List.not_mem_nil, false_implies, implies_true,
    and_true] at h
  obtain ⟨hname, hdefault, htemplate, hmax, hbuckets⟩ := h
  simp only [Draft.finish, draft, if_pos (not_not.mp hname), join_of_missing hdefault,
    join_of_missing htemplate, getD_of_missing hmax, getD_of_missing hbuckets]

theorem patient_namespaceConfig : Patient namespaceConfig := patient_record _ _ _

variable {ns}

theorem IsText.reads {text : Bytes} (h : ns.IsText text) : namespaceConfig.Reads text ns := by
  obtain ⟨seen, hspare, hmembers⟩ := h.read ns.takes_known fun _ hname seen _ =>
    ns.takes_other hname seen
  refine reads_record h.exists_cons fun rest => (bind_of_ok (hmembers rest)).trans ?_
  rw [ns.finish_draft hspare]
  rfl

theorem isText_write (ns : NamespaceConfig) : ns.IsText ns.write := by
  have hbuckets := isMap_writeObject BucketConfig.isText_write ns.buckets
  have hwrites : Writes ns.fields _ :=
    .cons (isString_writeString ns.name) (writes_optional ns.defaultBucket "default_bucket"
      (writes_optional ns.template "dynamic_bucket_template" (.cons rfl (.cons hbuckets .nil))))
  have hrecord := hwrites.isRecord (by simp [fields])
  simp only [IsText, write, List.append_assoc]
  exact hrecord

end NamespaceConfig

/-! ### Configurations -/

namespace ServiceConfig

variable (c : ServiceConfig)

def fields : List Field := [
  ⟨"version", (· = Digits.ofNat c.version.toNat), c.version = 0⟩,
  ⟨"date", (· = Digits.ofNat c.date.toNat), c.date = 0⟩,
  ⟨"user", IsString c.user, c.user = ""⟩,
  ⟨"global_default_bucket", OptionalText BucketConfig.IsText c.globalDefault,
    c.globalDefault = none⟩,
  ⟨"namespaces", IsMap NamespaceConfig.IsText c.namespaces, c.namespaces = ∅⟩]

def IsText (text : Bytes) : Prop := IsRecord c.fields text

/-- The draft of the configuration when members of these names were read. -/
def draft (seen : List String) : Draft where
  version := if "version" ∈ seen then some c.version else none
  date := if "date" ∈ seen then some c.date else none
  user := if "user" ∈ seen then some c.user else none
  globalDefault := if "global_default_bucket" ∈ seen then some c.globalDefault else none
  namespaces := if "namespaces" ∈ seen then some c.namespaces else none

theorem takes_known : ∀ f ∈ c.fields, ∀ seen text, f.name ∉ seen → f.texts text →
    Takes (serviceMember (c.draft seen) f.name) text (c.draft (f.name :: seen)) := by
  simp only [fields, List.forall_mem_cons, List.not_mem_nil, false_implies, implies_true, and_true]
  refine ⟨?_, ?_, ?_, ?_, ?_⟩
  · rintro seen _ hnew rfl
    have hdraft : c.draft ("version" :: seen) =
        { c.draft seen with version := some c.version } := by simp [draft]
    rw [hdraft]
    exact (takes_field (if_neg hnew) (reads_unsigned c.version) patient_unsigned _).map _
  · rintro seen _ hnew rfl
    have hdraft : c.draft ("date" :: seen) =
        { c.draft seen with date := some c.date } := by simp [draft]
    rw [hdraft]
    exact (takes_field (if_neg hnew) (reads_unsigned c.date) patient_unsigned _).map _
  · rintro seen _ hnew htext
    have hdraft : c.draft ("user" :: seen) =
        { c.draft seen with user := some c.user } := by simp [draft]
    rw [hdraft]
    exact (takes_field (if_neg hnew) htext.reads patient_text _).map _
  · rintro seen _ hnew htext
    have hdraft : c.draft ("global_default_bucket" :: seen) =
        { c.draft seen with globalDefault := some c.globalDefault } := by simp [draft]
    have hnone : (c.draft seen).globalDefault = none := if_neg hnew
    have hfield :=
      takes_field hnone htext.reads (patient_optional bucketConfig) "global_default_bucket"
    rw [hdraft]
    exact hfield.map fun o => { c.draft seen with globalDefault := some o }
  · rintro seen _ hnew htext
    have hdraft : c.draft ("namespaces" :: seen) =
        { c.draft seen with namespaces := some c.namespaces } := by simp [draft]
    rw [hdraft]
    have hreads := htext.reads NamespaceConfig.patient_namespaceConfig fun _ _ h => h.reads
    exact (takes_field (if_neg hnew) hreads (patient_object _ _) _).map _

theorem takes_other {name : String} (hname : ∀ f ∈ c.fields, f.name ≠ name) (seen : List String)
    {text : Bytes} (htext : IsJson text) :
    Takes (serviceMember (c.draft seen) name) text (c.draft (name :: seen)) := by
  simp only [fields, List.forall_mem_cons, List.not_mem_nil, false_implies, implies_true,
    and_true] at hname
  obtain ⟨h₁, h₂, h₃, h₄, h₅⟩ := hname
  have hdraft : c.draft (name :: seen) = c.draft seen := by
    simp [draft, h₁, h₂, h₃, h₄, h₅]
  rw [hdraft, serviceMember]
  · exact takes_unknown htext name _
  exacts [Ne.symm h₁, Ne.symm h₂, Ne.symm h₃, Ne.symm h₄, Ne.symm h₅]

theorem finish_draft {seen : List String} (h : ∀ f ∈ c.fields, f.name ∉ seen → f.spare) :
    (c.draft seen).finish = c := by
  simp only [fields, List.forall_mem_cons, List.not_mem_nil, false_implies, implies_true,
    and_true] at h
  obtain ⟨hversion, hdate, huser, hglobal, hnamespaces⟩ := h
  simp only [Draft.finish, draft, getD_of_missing hversion, getD_of_missing hdate,
    getD_of_missing huser, join_of_missing hglobal, getD_of_missing hnamespaces]

variable {c}

theorem IsText.reads {text : Bytes} (h : c.IsText text) : serviceConfig.Reads text c := by
  obtain ⟨seen, hspare, hmembers⟩ := h.read c.takes_known fun _ hname seen _ =>
    c.takes_other hname seen
  refine reads_record h.exists_cons fun rest => (bind_of_ok (hmembers rest)).trans ?_
  rw [c.finish_draft hspare]
  rfl

theorem isText_write (c : ServiceConfig) : c.IsText c.write := by
  have hnamespaces := isMap_writeObject NamespaceConfig.isText_write c.namespaces
  have hwrites : Writes c.fields _ :=
    .cons rfl (.cons rfl (.cons (isString_writeString c.user)
      (writes_optional c.globalDefault "global_default_bucket" (.cons hnamespaces .nil))))
  exact hwrites.isRecord (by simp [fields])

/-- A configuration is read from what is written of it, and from every other text that shows it:
whatever the order of members, the white space, the fields that are left out and the members that
are added. -/
theorem presentation_spec (c : ServiceConfig) : c.IsText c.write ∧ ∀ w text w', Blank w →
    c.IsText text → Blank w' → ServiceConfig.read (w ++ (text ++ w')) = .ok c := by
  refine ⟨c.isText_write, fun w text w' hw htext hw' => ?_⟩
  have hpatient : Patient serviceConfig := patient_record _ _ _
  have hstops : Stops w' := by
    have hstops := hw'.stops stops_nil
    rwa [List.append_nil] at hstops
  have hread : serviceConfig (w ++ (text ++ w')) = .ok (c, w') :=
    (hpatient w _ hw).trans (htext.reads w' hstops)
  rw [ServiceConfig.read, whole, hread]
  exact if_pos (List.all_eq_true.mpr hw'.isSpace)

/-- The members come in another order than they are written in, a list of objects is added, the
default bucket of the namespace is null, and most fields are left out. -/
theorem presentation_spec_note :
    let c := { ServiceConfig.empty with version := 3, namespaces := .ofList [("a", .ofName "a")] }
    let text := Bytes.ofString ("\x7b\"note\" : [\x7b\x7d],\"namespaces\":\x7b\"a\":\x7b" ++
      "\"default_bucket\":null,\"name\":\"a\"\x7d\x7d,\"version\":3\x7d")
    c.IsText text ∧ ServiceConfig.read ([0x20] ++ (text ++ [0x0A])) = .ok c := by
  intro c text
  have hblank : Blank [] := nofun
  have hspace : Blank [0x20] := by simp [Blank]
  have hnote : IsJson [0x5B, 0x7B, 0x7D, 0x5D] :=
    .full (.last (show IsName .list [] from rfl) hblank (.empty .object hblank) hblank)
  let a : Bytes := writeObject [("default_bucket", nullWord), ("name", writeString "a")]
  have ha : (NamespaceConfig.ofName "a").IsText a := by
    refine ⟨_, isObject_writeObject _, ?_, ?_, ?_, ?_⟩
    all_goals simp [NamespaceConfig.fields, NamespaceConfig.ofName, OptionalText,
      isString_writeString]
  have hnamespaces : IsMap NamespaceConfig.IsText c.namespaces (writeObject [("a", a)]) := by
    refine ⟨_, isObject_writeObject _, by simp, ?_, fun name hname => ?_⟩
    · simp only [List.mem_singleton, forall_eq]
      exact ⟨.ofName "a", by decide +kernel, ha⟩
    · by_contra hne
      refine hname (NameMap.get?_insert_of_ne ∅ (fun heq => hne ?_) _)
      simp [heq]
  have htext : c.IsText text := by
    have hmember : IsMember "note" [0x5B, 0x7B, 0x7D, 0x5D] _ :=
      ⟨_, [], [0x20], [0x20], [], isString_writeString "note", hblank, hspace, hspace, hblank, rfl⟩
    have hobject : IsObject [("note", [0x5B, 0x7B, 0x7D, 0x5D]),
        ("namespaces", writeObject [("a", a)]), ("version", Digits.ofNat 3)] text := by
      refine Eq.mp (congrArg (IsObject _) ?_) (.full (.more hmember (.more
        (isMember_writeMember "namespaces" _) (.last (isMember_writeMember "version" _)))))
      decide +kernel
    refine ⟨_, hobject, ?_, ?_, ?_, ?_⟩
    · simp [fields, hnamespaces, c]
    · simp [fields, hnote, c]
    · simp [fields, c]
    · simp [fields, c, ServiceConfig.empty]
  exact ⟨htext, (presentation_spec c).2 [0x20] text [0x0A] hspace htext (by simp [Blank])⟩

end ServiceConfig

end TokenQuota
