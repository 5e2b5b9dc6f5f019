import TokenQuota.Json.Skip
import TokenQuota.Config.Format
import TokenQuota.Proofs.Json.Tokens
import TokenQuota.Proofs.NameMap

/-!
Written objects read back member by member: each member takes a draft to the next one, and the
last draft is what was written.
-/

namespace TokenQuota.Json.Reader

variable {α δ : Type}

/-- Written members, one after the other, take a draft to another one. -/
inductive ReadsMembers (member : δ → String → Reader δ) : δ → List (String × Bytes) → δ → Prop
  | nil (d : δ) : ReadsMembers member d [] d
  | cons {d e f : δ} {name : String} {text : Bytes} {members : List (String × Bytes)}
      (head : ∀ rest, Stops rest → member d name (0x3A :: (text ++ rest)) = .ok (e, rest))
      (tail : ReadsMembers member e members f) :
      ReadsMembers member d ((name, text) :: members) f

/-- A member that is written only when there is a value. -/
theorem ReadsMembers.optional {β : Type} {member : δ → String → Reader δ} {f : Option β → δ}
    {name : String} {write : β → Bytes} {o : Option β} {members : List (String × Bytes)} {d : δ}
    (head : ∀ b rest, Stops rest →
      member (f none) name (0x3A :: (write b ++ rest)) = .ok (f (some b), rest))
    (tail : ReadsMembers member (f o) members d) :
    ReadsMembers member (f none) ((o.map fun b => (name, write b)).toList ++ members) d := by
  cases o with
  | none => exact tail
  | some b => exact .cons (head b) tail

/-- Members with a comma before each. -/
def laterMembers (members : List (String × Bytes)) : Bytes :=
  members.flatMap fun m => 0x2C :: writeMember m.1 m.2

theorem commaSeparated_cons (first : Bytes) (rest : List Bytes) :
    commaSeparated (first :: rest) = first ++ rest.flatMap (0x2C :: ·) := by
  induction rest generalizing first with
  | nil => simp [commaSeparated]
  | cons second rest ih =>
      rw [commaSeparated, ih, List.flatMap_cons]
      · rfl
      · exact List.cons_ne_nil second rest

theorem writeObject_cons (name : String) (text : Bytes) (members : List (String × Bytes)) :
    writeObject ((name, text) :: members) =
      0x7B :: (writeMember name text ++ (laterMembers members ++ [0x7D])) := by
  rw [writeObject, List.map_cons, commaSeparated_cons, List.flatMap_map, List.cons_append,
    List.append_assoc]
  rfl

theorem stops_laterMembers (members : List (String × Bytes)) (rest : Bytes) :
    Stops (laterMembers members ++ 0x7D :: rest) := by
  cases members with
  | nil => exact stops_brace rest
  | cons m members => exact stops_comma _

theorem length_le_laterMembers (members : List (String × Bytes)) :
    members.length ≤ (laterMembers members).length := by
  induction members with
  | nil => simp [laterMembers]
  | cons m members ih =>
      rw [laterMembers, List.flatMap_cons, List.length_append, ← laterMembers]
      simp only [List.length_cons]
      omega

theorem toMember_brace (first : Bool) (rest : Bytes) :
    toMember first (0x7D :: rest) = .ok (false, 0x7D :: rest) := by
  rw [toMember, bind_of_ok (look_cons (by decide) rest)]
  rfl

theorem toMember_quote (rest : Bytes) :
    toMember true (quoteMark :: rest) = .ok (true, quoteMark :: rest) := by
  rw [toMember, bind_of_ok (look_cons (by decide) rest)]
  rfl

theorem toMember_comma (rest : Bytes) :
    toMember false (0x2C :: quoteMark :: rest) = .ok (true, quoteMark :: rest) := by
  rw [toMember, bind_of_ok (look_cons (by decide) (quoteMark :: rest))]
  have hskip : skipOctet (0x2C :: quoteMark :: rest) = .ok ((), quoteMark :: rest) := rfl
  simp only [show ¬((0x2C : UInt8) = 0x7D) by decide, Bool.false_eq_true, if_false, if_true]
  rw [bind_of_ok hskip, bind_of_ok (look_cons (by decide) rest)]
  rfl

theorem name?_brace (first : Bool) (rest : Bytes) :
    name? first (0x7D :: rest) = .ok (none, 0x7D :: rest) := by
  refine within_of_ok ?_
  rw [bind_of_ok (toMember_brace first rest)]
  rfl

theorem name?_first (name : String) (rest : Bytes) :
    name? true (writeString name ++ rest) = .ok (some name, rest) := by
  refine within_of_ok ?_
  have hmember : toMember true (writeString name ++ rest) =
      .ok (true, writeString name ++ rest) := toMember_quote _
  rw [bind_of_ok hmember]
  exact map_of_ok (string_writeString name rest)

theorem name?_later (name : String) (rest : Bytes) :
    name? false (0x2C :: (writeString name ++ rest)) = .ok (some name, rest) := by
  refine within_of_ok ?_
  have hmember : toMember false (0x2C :: (writeString name ++ rest)) =
      .ok (true, writeString name ++ rest) := toMember_comma _
  rw [bind_of_ok hmember]
  exact map_of_ok (string_writeString name rest)

theorem membersUpTo_laterMembers {member : δ → String → Reader δ} {d d' : δ}
    {members : List (String × Bytes)} (h : ReadsMembers member d members d') {limit : Nat}
    (hlimit : members.length < limit) (rest : Bytes) :
    membersUpTo member limit false d (laterMembers members ++ 0x7D :: rest) =
      .ok (d', 0x7D :: rest) := by
  induction h generalizing limit with
  | nil d =>
      obtain ⟨limit, rfl⟩ := Nat.exists_eq_succ_of_ne_zero (Nat.ne_of_gt hlimit)
      rw [membersUpTo]
      exact bind_of_ok (name?_brace false rest)
  | @cons d d' d'' name text members head tail ih =>
      obtain ⟨limit, rfl⟩ := Nat.exists_eq_succ_of_ne_zero (Nat.ne_of_gt (Nat.zero_lt_of_lt hlimit))
      have htext : laterMembers ((name, text) :: members) ++ 0x7D :: rest =
          0x2C :: (writeString name ++ 0x3A :: (text ++ (laterMembers members ++ 0x7D :: rest))) := by
        simp [laterMembers, writeMember]
      rw [htext, membersUpTo, bind_of_ok (name?_later name _)]
      simp only
      rw [bind_of_ok (head _ (stops_laterMembers members rest))]
      exact ih (by simpa using hlimit)

/-- What a written object holds between its braces is read up to the closing one. -/
theorem members_writeObject {member : δ → String → Reader δ} {d d' : δ}
    {members : List (String × Bytes)} (h : ReadsMembers member d members d') (rest : Bytes) :
    Reader.members d member ((writeObject members).tail ++ rest) = .ok (d', 0x7D :: rest) := by
  cases h with
  | nil => exact bind_of_ok (name?_brace true rest)
  | @cons _ d' _ name text members head tail =>
      have htext : (writeObject ((name, text) :: members)).tail ++ rest =
          writeString name ++ 0x3A :: (text ++ (laterMembers members ++ 0x7D :: rest)) := by
        rw [writeObject_cons]
        simp [writeMember]
      have hlength := length_le_laterMembers members
      rw [htext, Reader.members, membersUpTo, bind_of_ok (name?_first name _)]
      simp only
      rw [bind_of_ok (head _ (stops_laterMembers members rest))]
      exact membersUpTo_laterMembers tail (by simp only [List.length_append, List.length_cons]; omega)
        rest

theorem endObject_brace (rest : Bytes) : endObject (0x7D :: rest) = .ok ((), rest) := by
  rw [endObject, bind_of_ok (look_cons (by decide) rest)]
  rfl

theorem braced_of_ok {fromObject : Reader α} {inner rest : Bytes} {a : α}
    (h : fromObject (inner ++ rest) = .ok (a, 0x7D :: rest)) :
    (do
      skipOctet
      let result ← fromObject
      endObject
      return result) (0x7B :: (inner ++ rest)) = .ok (a, rest) := by
  have hskip : skipOctet (0x7B :: (inner ++ rest)) = .ok ((), inner ++ rest) := rfl
  rw [bind_of_ok hskip, bind_of_ok h, bind_of_ok (endObject_brace rest)]
  rfl

/-- An object is read by the reader of what stands between its braces. -/
theorem reads_object {expected : String} {fromObject : Reader α} {text : Bytes} {a : α}
    (htext : ∃ inner, text = 0x7B :: inner)
    (h : ∀ rest, fromObject (text.tail ++ rest) = .ok (a, 0x7D :: rest)) :
    (object expected fromObject).Reads text a := by
  intro rest _
  obtain ⟨inner, rfl⟩ := htext
  rw [List.cons_append, object, bind_of_ok (start_cons (by decide) _), if_pos rfl]
  exact braced_of_ok (h rest)

theorem reads_record {expected : String} {fromList fromObject : Reader α} {text : Bytes} {a : α}
    (htext : ∃ inner, text = 0x7B :: inner)
    (h : ∀ rest, fromObject (text.tail ++ rest) = .ok (a, 0x7D :: rest)) :
    (record expected fromList fromObject).Reads text a := by
  intro rest _
  obtain ⟨inner, rfl⟩ := htext
  rw [List.cons_append, record, bind_of_ok (start_cons (by decide) _), if_neg (by decide),
    if_pos rfl]
  exact braced_of_ok (h rest)

theorem exists_cons_writeObject (members : List (String × Bytes)) :
    ∃ inner, writeObject members = 0x7B :: inner :=
  ⟨_, rfl⟩

theorem reads_optional {reader : Reader α} {text : Bytes} {a : α}
    (htext : ∃ inner, text = 0x7B :: inner) (h : reader.Reads text a) :
    (optional reader).Reads text (some a) := by
  intro rest hrest
  obtain ⟨inner, rfl⟩ := htext
  have hread := h rest hrest
  rw [List.cons_append] at hread ⊢
  rw [optional, bind_of_ok (look_cons (by decide) _), if_neg (by decide)]
  exact map_of_ok hread

theorem value_of_reads {reader : Reader α} {text : Bytes} {a : α} (h : reader.Reads text a)
    (name : String) {rest : Bytes} (hrest : Stops rest) :
    value name reader (0x3A :: (text ++ rest)) = .ok (a, rest) := by
  refine within_of_ok ?_
  have hskip : skipOctet (0x3A :: (text ++ rest)) = .ok ((), text ++ rest) := rfl
  rw [bind_of_ok (look_cons (by decide) _)]
  simp only [if_true]
  rw [bind_of_ok hskip]
  exact h rest hrest

theorem field_of_reads {reader : Reader α} {text : Bytes} {a : α} (h : reader.Reads text a)
    (name : String) {rest : Bytes} (hrest : Stops rest) :
    field name none reader (0x3A :: (text ++ rest)) = .ok (a, rest) :=
  value_of_reads h name hrest

/-- Entries that come after those of a map are put behind them. -/
theorem exists_readsMembers_insert {reader : Reader α} {write : α → Bytes}
    {entries : List (String × α)} (hreads : ∀ e ∈ entries, reader.Reads (write e.2) e.2)
    (hsorted : entries.Pairwise fun a b => a.1 < b.1) (m : NameMap α)
    (hafter : ∀ e ∈ m.entries, ∀ f ∈ entries, e.1 < f.1) :
    ∃ m' : NameMap α, m'.entries = m.entries ++ entries ∧
      ReadsMembers (fun m name => do return m.insert name (← value name reader)) m
        (entries.map fun e => (e.1, write e.2)) m' := by
  -- The map grows by the entries read so far, all of which come before those still to be read.
  induction entries generalizing m with
  | nil => exact ⟨m, by simp, .nil m⟩
  | cons a rest ih =>
      obtain ⟨ha, hrest⟩ := List.pairwise_cons.mp hsorted
      have hinsert : (m.insert a.1 a.2).entries = m.entries ++ [a] :=
        NameMap.insertEntry_eq_append fun e he => hafter e he a List.mem_cons_self
      have hafter' : ∀ e ∈ (m.insert a.1 a.2).entries, ∀ f ∈ rest, e.1 < f.1 := by
        intro e he f hf
        rw [hinsert] at he
        rcases List.mem_append.mp he with he | he
        · exact hafter e he f (List.mem_cons_of_mem _ hf)
        · rw [List.mem_singleton.mp he]
          exact ha f hf
      obtain ⟨m', hm', hmembers⟩ := ih (fun e he => hreads e (List.mem_cons_of_mem _ he)) hrest
        (m.insert a.1 a.2) hafter'
      refine ⟨m', by rw [hm', hinsert, List.append_assoc]; rfl, .cons ?_ hmembers⟩
      intro tail htail
      exact bind_of_ok (value_of_reads (hreads a List.mem_cons_self) a.1 htail)

theorem reads_nameMap {reader : Reader α} {write : α → Bytes} (m : NameMap α)
    (hreads : ∀ e ∈ m.entries, reader.Reads (write e.2) e.2) :
    (nameMap reader).Reads (writeObject (m.entries.map fun e => (e.1, write e.2))) m := by
  obtain ⟨m', hm', hmembers⟩ := exists_readsMembers_insert hreads m.sorted ∅
    (fun e he => absurd he List.not_mem_nil)
  have heq : m' = m := NameMap.ext_entries hm'
  subst heq
  exact reads_object (exists_cons_writeObject _) (members_writeObject hmembers)

end TokenQuota.Json.Reader
