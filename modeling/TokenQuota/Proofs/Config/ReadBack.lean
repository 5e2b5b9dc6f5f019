import TokenQuota.Proofs.Json.Objects

/-! What is written of a configuration reads back as the configuration. -/

namespace TokenQuota

open Json Json.Reader

namespace BucketConfig

theorem readsMembers (b : BucketConfig) :
    ReadsMembers bucketMember {}
      [("fill_rate", Digits.ofInt b.fillRate.toInt),
       ("size", Digits.ofInt b.size.toInt),
       ("max_idle_millis", Digits.ofInt b.maxIdleMillis.toInt),
       ("max_debt_millis", Digits.ofInt b.maxDebtMillis.toInt),
       ("dynamic", writeBoolean b.dynamic)]
      ⟨some b.fillRate, some b.size, some b.maxIdleMillis, some b.maxDebtMillis,
        some b.dynamic⟩ := by
  -- Each member fills one field of the draft that the members before it left.
  refine .cons (e := ⟨some b.fillRate, none, none, none, none⟩) ?_ ?_
  · intro rest hrest
    exact bind_of_ok (field_of_reads (reads_signed b.fillRate) "fill_rate" hrest)
  refine .cons (e := ⟨some b.fillRate, some b.size, none, none, none⟩) ?_ ?_
  · intro rest hrest
    exact bind_of_ok (field_of_reads (reads_signed b.size) "size" hrest)
  refine .cons (e := ⟨some b.fillRate, some b.size, some b.maxIdleMillis, none, none⟩) ?_ ?_
  · intro rest hrest
    exact bind_of_ok (field_of_reads (reads_signed b.maxIdleMillis) "max_idle_millis" hrest)
  refine .cons (e := ⟨some b.fillRate, some b.size, some b.maxIdleMillis,
    some b.maxDebtMillis, none⟩) ?_ ?_
  · intro rest hrest
    exact bind_of_ok (field_of_reads (reads_signed b.maxDebtMillis) "max_debt_millis" hrest)
  refine .cons ?_ (.nil _)
  intro rest hrest
  exact bind_of_ok (field_of_reads (reads_boolean b.dynamic) "dynamic" hrest)

theorem reads_write (b : BucketConfig) : bucketConfig.Reads b.write b := by
  refine reads_record (exists_cons_writeObject _) ?_
  intro rest
  have hmembers := members_writeObject b.readsMembers rest
  exact bind_of_ok hmembers

theorem reads_optional_write (b : BucketConfig) :
    (Reader.optional bucketConfig).Reads b.write (some b) :=
  reads_optional (exists_cons_writeObject _) b.reads_write

end BucketConfig

theorem join_map_some {α : Type} (o : Option α) : (o.map some).join = o := by
  cases o with
  | none => rfl
  | some a => rfl

namespace NamespaceConfig

theorem readsMembers (ns : NamespaceConfig) :
    ReadsMembers namespaceMember {}
      ([("name", writeString ns.name)] ++
        (ns.defaultBucket.map fun b => ("default_bucket", b.write)).toList ++
        (ns.template.map fun b => ("dynamic_bucket_template", b.write)).toList ++
        [("max_dynamic_buckets", Digits.ofNat ns.maxDynamic.toNat),
         ("buckets", writeObject (ns.buckets.entries.map fun e => (e.1, e.2.write)))])
      ⟨some ns.name, ns.defaultBucket.map some, ns.template.map some, some ns.maxDynamic,
        some ns.buckets⟩ := by
  simp only [List.append_assoc, List.cons_append, List.nil_append]
  refine .cons (e := ⟨some ns.name, none, none, none, none⟩) ?_ ?_
  · intro rest hrest
    exact bind_of_ok (field_of_reads (reads_text ns.name) "name" hrest)
  refine .optional (f := fun o => NamespaceConfig.Draft.mk (some ns.name) (o.map some)
    none none none) ?_ ?_
  · intro b rest hrest
    exact bind_of_ok (field_of_reads b.reads_optional_write "default_bucket" hrest)
  refine .optional (f := fun o => NamespaceConfig.Draft.mk (some ns.name)
    (ns.defaultBucket.map some) (o.map some) none none) ?_ ?_
  · intro b rest hrest
    exact bind_of_ok (field_of_reads b.reads_optional_write "dynamic_bucket_template" hrest)
  refine .cons (e := ⟨some ns.name, ns.defaultBucket.map some, ns.template.map some,
    some ns.maxDynamic, none⟩) ?_ ?_
  · intro rest hrest
    exact bind_of_ok (field_of_reads (reads_count ns.maxDynamic) "max_dynamic_buckets" hrest)
  refine .cons ?_ (.nil _)
  intro rest hrest
  have hbuckets := reads_nameMap ns.buckets fun e _ => e.2.reads_write
  exact bind_of_ok (field_of_reads hbuckets "buckets" hrest)

theorem reads_write (ns : NamespaceConfig) : namespaceConfig.Reads ns.write ns := by
  refine reads_record (exists_cons_writeObject _) ?_
  intro rest
  have hmembers := members_writeObject ns.readsMembers rest
  refine (bind_of_ok hmembers).trans ?_
  rw [Draft.finish, join_map_some, join_map_some]
  rfl

end NamespaceConfig

namespace ServiceConfig

theorem readsMembers (c : ServiceConfig) :
    ReadsMembers serviceMember {}
      ([("version", Digits.ofNat c.version.toNat),
        ("date", Digits.ofNat c.date.toNat),
        ("user", writeString c.user)] ++
        (c.globalDefault.map fun b => ("global_default_bucket", b.write)).toList ++
        [("namespaces", writeObject (c.namespaces.entries.map fun e => (e.1, e.2.write)))])
      ⟨some c.version, some c.date, some c.user, c.globalDefault.map some,
        some c.namespaces⟩ := by
  simp only [List.cons_append, List.nil_append]
  refine .cons (e := ⟨some c.version, none, none, none, none⟩) ?_ ?_
  · intro rest hrest
    exact bind_of_ok (field_of_reads (reads_unsigned c.version) "version" hrest)
  refine .cons (e := ⟨some c.version, some c.date, none, none, none⟩) ?_ ?_
  · intro rest hrest
    exact bind_of_ok (field_of_reads (reads_unsigned c.date) "date" hrest)
  refine .cons (e := ⟨some c.version, some c.date, some c.user, none, none⟩) ?_ ?_
  · intro rest hrest
    exact bind_of_ok (field_of_reads (reads_text c.user) "user" hrest)
  refine .optional (f := fun o => ServiceConfig.Draft.mk (some c.version) (some c.date)
    (some c.user) (o.map some) none) ?_ ?_
  · intro b rest hrest
    exact bind_of_ok (field_of_reads b.reads_optional_write "global_default_bucket" hrest)
  refine .cons ?_ (.nil _)
  intro rest hrest
  have hnamespaces := reads_nameMap c.namespaces fun e _ => e.2.reads_write
  exact bind_of_ok (field_of_reads hnamespaces "namespaces" hrest)

theorem reads_write (c : ServiceConfig) : serviceConfig.Reads c.write c := by
  refine reads_record (exists_cons_writeObject _) ?_
  intro rest
  have hmembers := members_writeObject c.readsMembers rest
  refine (bind_of_ok hmembers).trans ?_
  rw [Draft.finish, join_map_some]
  rfl

theorem read_of_reads {c : ServiceConfig} {text : Bytes} (h : serviceConfig.Reads text c) :
    ServiceConfig.read text = .ok c := by
  have hread := h [] stops_nil
  rw [List.append_nil] at hread
  rw [ServiceConfig.read, whole, hread]
  rfl

/-- Every configuration reads back from what is written of it, whatever its numbers, its texts
and the names in its maps are. -/
theorem read_write (c : ServiceConfig) : ServiceConfig.read c.write = .ok c :=
  read_of_reads c.reads_write

end ServiceConfig

end TokenQuota
