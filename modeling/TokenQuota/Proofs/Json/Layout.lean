import TokenQuota.Proofs.Json.Grammar
import TokenQuota.Proofs.Json.Objects

/-!
Typed values are read alike however their text is laid out: white space between the tokens, the
spelling of strings, the order of members and members that nobody asks for make no difference.
-/

namespace TokenQuota.Json

/-! ### Spellings of strings -/

/-- A text that may stand between the marks of a string, and the octets that it stands for. -/
inductive Spells : Bytes → Bytes → Prop
  | nil : Spells [] []
  | plain {b : UInt8} {text octets : Bytes} (hcontrol : 0x20 ≤ b) (hquote : b ≠ quoteMark)
      (hslash : b ≠ backslash) (h : Spells text octets) : Spells (b :: text) (b :: octets)
  | short {e b : UInt8} {text octets : Bytes}
      (he : (e, b) ∈ [(0x22, 0x22), (0x5C, 0x5C), (0x2F, 0x2F), (0x62, 0x08), (0x66, 0x0C),
        (0x6E, 0x0A), (0x72, 0x0D), (0x74, 0x09)])
      (h : Spells text octets) : Spells (backslash :: e :: text) (b :: octets)
  | unit {a b c d : UInt8} {n : Nat} {text octets : Bytes} (hn : hexQuad? a b c d = some n)
      (hvalid : n.isValidChar) (h : Spells text octets) :
      Spells (backslash :: 0x75 :: a :: b :: c :: d :: text)
        (String.utf8EncodeChar (Char.ofNat n) ++ octets)
  | pair {a b c d a' b' c' d' : UInt8} {n n' : Nat} {text octets : Bytes}
      (hn : hexQuad? a b c d = some n) (hleading : 0xD800 ≤ n ∧ n ≤ 0xDBFF)
      (hn' : hexQuad? a' b' c' d' = some n') (htrailing : 0xDC00 ≤ n' ∧ n' ≤ 0xDFFF)
      (h : Spells text octets) :
      Spells
        (backslash :: 0x75 :: a :: b :: c :: d :: backslash :: 0x75 :: a' :: b' :: c' :: d' :: text)
        (String.utf8EncodeChar (Char.ofNat (0x10000 + (n - 0xD800) * 1024 + (n' - 0xDC00))) ++
          octets)

/-- The text is a spelling of the string, with its marks. -/
def IsString (s : String) (text : Bytes) : Prop :=
  ∃ content, Spells content (Bytes.ofString s) ∧ text = quoteMark :: (content ++ [quoteMark])

theorem encodePoint_eq {n : Nat} (h : n.isValidChar) :
    encodePoint n = String.utf8EncodeChar (Char.ofNat n) := by
  have hvalue : (Char.ofNat n).val.toNat = n := by
    rw [Char.ofNat, dif_pos h]
    rfl
  have hlt : n < 0x110000 := by
    rcases h with h | h
    · omega
    · exact h.2
  unfold encodePoint String.utf8EncodeChar
  simp only [hvalue, show Nat.pow 2 0 = 1 from rfl, show Nat.pow 2 6 = 64 from rfl,
    show Nat.pow 2 12 = 4096 from rfl, Nat.div_one, Nat.add_comm 0x80]
  by_cases h₁ : n < 0x80
  · rw [if_pos h₁, if_pos (by omega)]
  by_cases h₂ : n < 0x800
  · rw [if_neg h₁, if_pos h₂, if_neg (by omega), if_pos (by omega),
      show 0xC0 + n / 64 = n / 64 % 32 + 192 by omega]
  by_cases h₃ : n < 0x10000
  · rw [if_neg h₁, if_neg h₂, if_pos h₃, if_neg (by omega), if_neg (by omega), if_pos (by omega),
      show 0xE0 + n / 4096 = n / 4096 % 16 + 224 by omega]
  · rw [if_neg h₁, if_neg h₂, if_neg h₃, if_neg (by omega), if_neg (by omega), if_neg (by omega),
      show 0xF0 + n / 262144 = n / 262144 % 8 + 240 by omega]

theorem escape_unit {a b c d : UInt8} {n : Nat} (hn : hexQuad? a b c d = some n)
    (hvalid : n.isValidChar) (rest : Bytes) :
    escape (0x75 :: a :: b :: c :: d :: rest) =
      .ok (String.utf8EncodeChar (Char.ofNat n), 5) := by
  have hunit : isTrailing n = false ∧ isLeading n = false := by
    simp only [isTrailing, isLeading, Bool.and_eq_false_iff, decide_eq_false_iff_not]
    rcases hvalid with h | h
    · omega
    · omega
  simp only [escape, if_true, hn, hunit, encodePoint_eq hvalid, Bool.false_eq_true, if_false]

theorem escape_pair {a b c d a' b' c' d' : UInt8} {n n' : Nat} (hn : hexQuad? a b c d = some n)
    (hleading : 0xD800 ≤ n ∧ n ≤ 0xDBFF) (hn' : hexQuad? a' b' c' d' = some n')
    (htrailing : 0xDC00 ≤ n' ∧ n' ≤ 0xDFFF) (rest : Bytes) :
    escape (0x75 :: a :: b :: c :: d :: backslash :: 0x75 :: a' :: b' :: c' :: d' :: rest) =
      .ok (String.utf8EncodeChar
        (Char.ofNat (0x10000 + (n - 0xD800) * 1024 + (n' - 0xDC00))), 11) := by
  have hunit : isTrailing n = false ∧ isLeading n = true := by
    simp only [isTrailing, isLeading, Bool.and_eq_false_iff, decide_eq_false_iff_not,
      Bool.and_eq_true, decide_eq_true_eq]
    omega
  have hunit' : isTrailing n' = true := by
    simp only [isTrailing, Bool.and_eq_true, decide_eq_true_eq]
    exact htrailing
  have hvalid : (0x10000 + (n - 0xD800) * 1024 + (n' - 0xDC00)).isValidChar :=
    .inr ⟨by omega, by omega⟩
  simp only [escape, if_true, hn, hunit, Bool.false_eq_true, if_false, trailingHalf, ne_eq,
    not_true_eq_false, hn', hunit', encodePoint_eq hvalid]
  rfl

theorem literal_of_escape {e octets rest tail after : Bytes} {length : Nat}
    (he : escape (e ++ rest) = .ok (octets, length)) (hlength : e.length = length)
    (hrest : literal 0 rest = .ok (tail, after)) :
    literal 0 (backslash :: (e ++ rest)) = .ok (octets ++ tail, after) := by
  have hskip : ∀ (e : Bytes), literal e.length (e ++ rest) = literal 0 rest := by
    intro e
    induction e with
    | nil => rfl
    | cons b e ih => exact ih
  rw [literal, if_neg (by decide), if_pos rfl, he]
  dsimp only
  rw [← hlength, hskip, hrest]
  rfl

theorem Spells.literal {text octets : Bytes} (h : Spells text octets) (rest : Bytes) :
    literal 0 (text ++ quoteMark :: rest) = .ok (octets, rest) := by
  induction h with
  | nil => simp [Json.literal]
  | plain hcontrol hquote hslash _ ih =>
      rw [List.cons_append, Json.literal, if_neg hquote, if_neg hslash,
        if_neg (UInt8.not_lt.mpr hcontrol), ih]
      rfl
  | @short e b text octets he _ ih =>
      have hescape : escape ([e] ++ (text ++ quoteMark :: rest)) = .ok ([b], 1) := by
        simp only [List.mem_cons, List.not_mem_nil, or_false, Prod.mk.injEq] at he
        rcases he with ⟨rfl, rfl⟩ | ⟨rfl, rfl⟩ | ⟨rfl, rfl⟩ | ⟨rfl, rfl⟩ | ⟨rfl, rfl⟩ | ⟨rfl, rfl⟩ |
          ⟨rfl, rfl⟩ | ⟨rfl, rfl⟩ <;> rfl
      exact literal_of_escape hescape rfl ih
  | @unit a b c d n text octets hn hvalid _ ih =>
      have hescape := escape_unit hn hvalid (text ++ quoteMark :: rest)
      exact literal_of_escape (e := [0x75, a, b, c, d]) hescape rfl ih
  | @pair a b c d a' b' c' d' n n' text octets hn hleading hn' htrailing _ ih =>
      have hescape := escape_pair hn hleading hn' htrailing (text ++ quoteMark :: rest)
      exact literal_of_escape (e := [0x75, a, b, c, d, backslash, 0x75, a', b', c', d'])
        hescape rfl ih

open Reader

variable {α β δ : Type}

theorem IsString.read {name : String} {text : Bytes} (h : IsString name text) (rest : Bytes) :
    string (text ++ rest) = .ok (name, rest) := by
  obtain ⟨content, hspells, rfl⟩ := h
  have hskip : skipOctet (quoteMark :: (content ++ [quoteMark]) ++ rest) =
      .ok ((), content ++ quoteMark :: rest) := by
    simp [skipOctet]
  rw [string, bind_of_ok hskip, bind_of_ok (ofLeaf_of_ok (hspells.literal rest)),
    Bytes.text?_ofString]
  rfl

theorem IsString.reads {value : String} {literal : Bytes} (h : IsString value literal) :
    Reader.text.Reads literal value := by
  intro rest _
  obtain ⟨content, -, htext⟩ := id h
  have hstart : start (literal ++ rest) = .ok (quoteMark, literal ++ rest) := by
    rw [htext]
    exact start_cons (by decide) _
  rw [Reader.text, bind_of_ok hstart, if_pos rfl]
  exact h.read rest

namespace Reader

/-! ### White space before a value -/

/-- The reader passes over white space first. -/
def Patient (reader : Reader α) : Prop :=
  ∀ w s, Blank w → reader (w ++ s) = reader s

theorem Patient.bind {x : Reader α} (h : Patient x) (f : α → Reader β) : Patient (x >>= f) := by
  intro w s hw
  change StateT.bind x f (w ++ s) = StateT.bind x f s
  rw [StateT.bind, StateT.bind, h w s hw]

theorem Patient.map {x : Reader α} (h : Patient x) (f : α → β) : Patient (f <$> x) := by
  intro w s hw
  change StateT.map f x (w ++ s) = StateT.map f x s
  rw [StateT.map, StateT.map, h w s hw]

theorem Patient.within {x : Reader α} (h : Patient x) (step : Step) : Patient (within step x) := by
  intro w s hw
  rw [Reader.within, Reader.within, h w s hw]

theorem patient_look : Patient look := by
  intro w s hw
  rw [look, look, hw.dropWhile]

theorem patient_start : Patient start := patient_look.bind _

theorem patient_signed : Patient signed := Patient.map (patient_start.bind _) _

theorem patient_unsigned : Patient unsigned := Patient.bind (patient_start.bind _) _

theorem patient_count : Patient count := Patient.bind (patient_start.bind _) _

theorem patient_boolean : Patient boolean := patient_start.bind _

theorem patient_text : Patient text := patient_start.bind _

theorem patient_optional (reader : Reader α) : Patient (Reader.optional reader) :=
  patient_look.bind _

theorem patient_object (expected : String) (fromObject : Reader α) :
    Patient (object expected fromObject) :=
  patient_start.bind _

theorem patient_record (expected : String) (fromList fromObject : Reader α) :
    Patient (record expected fromList fromObject) :=
  patient_start.bind _

theorem patient_value (name : String) (reader : Reader α) : Patient (value name reader) :=
  Patient.within (patient_look.bind _) _

theorem Reads.blank {reader : Reader α} {text : Bytes} {a : α} (h : reader.Reads text a)
    (hpatient : Patient reader) {w : Bytes} (hw : Blank w) : reader.Reads (w ++ text) a := by
  intro rest hrest
  rw [List.append_assoc, hpatient w _ hw]
  exact h rest hrest

/-! ### Members -/

/-- The value of a member is taken, with its colon and the white space before each of them. -/
def Takes (reader : Reader α) (text : Bytes) (a : α) : Prop :=
  ∀ w w' rest, Blank w → Blank w' → Stops rest →
    reader (w ++ 0x3A :: (w' ++ (text ++ rest))) = .ok (a, rest)

theorem takes_value {reader : Reader α} {text : Bytes} {a : α}
    (h : ∀ w, Blank w → reader.Reads (w ++ text) a) (name : String) :
    Takes (value name reader) text a := by
  intro w w' rest hw hw' hrest
  rw [patient_value name reader w _ hw, ← List.append_assoc]
  exact value_of_reads (h w' hw') name hrest

theorem Takes.map {x : Reader α} {text : Bytes} {a : α} (h : Takes x text a) (f : α → β) :
    Takes (do return f (← x)) text (f a) := by
  intro w w' rest hw hw' hrest
  exact bind_of_ok (h w w' rest hw hw' hrest)

end Reader

/-- A member of this name and value, with white space between its tokens. -/
def IsMember (name : String) (text part : Bytes) : Prop :=
  ∃ literal w₁ w₂ w₃ w₄, IsString name literal ∧ Blank w₁ ∧ Blank w₂ ∧ Blank w₃ ∧ Blank w₄ ∧
    part = w₁ ++ (literal ++ (w₂ ++ 0x3A :: (w₃ ++ (text ++ w₄))))

/-- Members with commas between them. -/
inductive Lists : List (String × Bytes) → Bytes → Prop
  | last {name : String} {text part : Bytes} (h : IsMember name text part) :
      Lists [(name, text)] part
  | more {name : String} {text part others : Bytes} {members : List (String × Bytes)}
      (h : IsMember name text part) (hothers : Lists members others) :
      Lists ((name, text) :: members) (part ++ 0x2C :: others)

/-- An object with these members, in this order. -/
inductive IsObject : List (String × Bytes) → Bytes → Prop
  | empty {w : Bytes} (hw : Blank w) : IsObject [] (0x7B :: (w ++ [0x7D]))
  | full {members : List (String × Bytes)} {inner : Bytes} (h : Lists members inner) :
      IsObject members (0x7B :: (inner ++ [0x7D]))

namespace Reader

theorem toMember_blank_brace (first : Bool) {w : Bytes} (hw : Blank w) (rest : Bytes) :
    toMember first (w ++ 0x7D :: rest) = .ok (false, 0x7D :: rest) := by
  rw [toMember, Patient.bind patient_look _ w _ hw]
  exact toMember_brace first rest

theorem toMember_blank_quote {w : Bytes} (hw : Blank w) (rest : Bytes) :
    toMember true (w ++ quoteMark :: rest) = .ok (true, quoteMark :: rest) := by
  rw [toMember, Patient.bind patient_look _ w _ hw]
  exact toMember_quote rest

theorem toMember_blank_comma {w w' : Bytes} (hw : Blank w) (hw' : Blank w') (rest : Bytes) :
    toMember false (w ++ 0x2C :: (w' ++ quoteMark :: rest)) = .ok (true, quoteMark :: rest) := by
  have hlook : look (w' ++ quoteMark :: rest) = .ok (some quoteMark, quoteMark :: rest) :=
    (patient_look w' _ hw').trans (look_cons (by decide) rest)
  rw [toMember, Patient.bind patient_look _ w _ hw, bind_of_ok (look_cons (by decide) _)]
  have hskip : skipOctet (0x2C :: (w' ++ quoteMark :: rest)) =
      .ok ((), w' ++ quoteMark :: rest) := rfl
  simp only [show ¬((0x2C : UInt8) = 0x7D) by decide, Bool.false_eq_true, if_false, if_true]
  rw [bind_of_ok hskip, bind_of_ok hlook]
  rfl

theorem name?_blank_brace (first : Bool) {w : Bytes} (hw : Blank w) (rest : Bytes) :
    name? first (w ++ 0x7D :: rest) = .ok (none, 0x7D :: rest) := by
  refine within_of_ok ?_
  rw [bind_of_ok (toMember_blank_brace first hw rest)]
  rfl

end Reader

theorem IsMember.exists_quote {name : String} {text part : Bytes} (h : IsMember name text part) :
    ∃ w tail, Blank w ∧ part = w ++ quoteMark :: tail := by
  obtain ⟨_, w₁, w₂, w₃, w₄, ⟨content, -, rfl⟩, hw₁, -, -, -, rfl⟩ := h
  exact ⟨w₁, _, hw₁, rfl⟩

/-- After a comma, the next member is read as a first one is. -/
theorem Lists.name?_comma {members : List (String × Bytes)} {inner : Bytes}
    (h : Lists members inner) {w : Bytes} (hw : Blank w) (rest : Bytes) :
    name? false (w ++ 0x2C :: (inner ++ rest)) = name? true (inner ++ rest) := by
  obtain ⟨w', tail, hw', hinner⟩ : ∃ w' tail, Blank w' ∧ inner = w' ++ quoteMark :: tail := by
    cases h with
    | last h => exact h.exists_quote
    | more h =>
        obtain ⟨w', tail, hw', rfl⟩ := h.exists_quote
        exact ⟨w', _, hw', List.append_assoc ..⟩
  have hmember : toMember false (w ++ 0x2C :: (inner ++ rest)) = toMember true (inner ++ rest) := by
    rw [hinner, List.append_assoc, List.cons_append, toMember_blank_comma hw hw',
      toMember_blank_quote hw']
  change within _ (StateT.bind _ _) _ = within _ (StateT.bind _ _) _
  rw [within, within, StateT.bind, StateT.bind, hmember]

variable {member : δ → String → Reader δ} {draft : List String → δ} {known : String → Prop}
  {members : List (String × Bytes)}

/-- A member is read with the white space before and inside of it; what comes after it is left. -/
theorem IsMember.read {name : String} {text part : Bytes} (h : IsMember name text part) {d e : δ}
    (htakes : Takes (member d name) text e) :
    ∃ w, Blank w ∧ ∀ limit first s rest, Stops rest → name? first s = name? true (part ++ rest) →
      membersUpTo member (limit + 1) first d s = membersUpTo member limit false e (w ++ rest) := by
  obtain ⟨literal, w₁, w₂, w₃, w₄, hname, hw₁, hw₂, hw₃, hw₄, rfl⟩ := h
  refine ⟨w₄, hw₄, fun limit first s rest hrest hs => ?_⟩
  obtain ⟨content, -, hliteral⟩ := id hname
  have hmember : toMember true
      (w₁ ++ (literal ++ (w₂ ++ 0x3A :: (w₃ ++ (text ++ w₄)))) ++ rest) =
        .ok (true, literal ++ (w₂ ++ 0x3A :: (w₃ ++ (text ++ (w₄ ++ rest))))) := by
    rw [List.append_assoc, hliteral]
    refine (toMember_blank_quote hw₁ _).trans ?_
    simp
  have hfirst : name? first s =
      .ok (some name, w₂ ++ 0x3A :: (w₃ ++ (text ++ (w₄ ++ rest)))) := by
    rw [hs]
    refine within_of_ok ?_
    rw [bind_of_ok hmember]
    exact map_of_ok (hname.read _)
  rw [membersUpTo, bind_of_ok hfirst]
  exact bind_of_ok (htakes w₂ w₃ _ hw₂ hw₃ (hw₄.stops hrest))

/-- Members are read one after the other when each of them takes the draft for the names before it
to the draft for one name more. Those that are known must not come twice. -/
theorem Lists.read {inner : Bytes} (h : Lists members inner)
    (hsteps : ∀ m ∈ members, ∀ seen, (known m.1 → m.1 ∉ seen) →
      Takes (member (draft seen) m.1) m.2 (draft (m.1 :: seen)))
    (honce : members.Pairwise fun m m' => m.1 = m'.1 → ¬known m.1) {seen : List String}
    (hseen : ∀ m ∈ members, known m.1 → m.1 ∉ seen) {limit : Nat} (hlimit : members.length < limit)
    {first : Bool} {s rest : Bytes} (hs : name? first s = name? true (inner ++ 0x7D :: rest)) :
    membersUpTo member limit first (draft seen) s =
      .ok (draft ((members.map Prod.fst).reverse ++ seen), 0x7D :: rest) := by
  induction h generalizing seen limit first s with
  | @last name text part hpart =>
      obtain ⟨limit, rfl⟩ := Nat.exists_eq_add_of_le' (show 2 ≤ limit from hlimit)
      have hfresh := hseen (name, text) List.mem_cons_self
      obtain ⟨w, hw, hstep⟩ :=
        hpart.read (hsteps (name, text) List.mem_cons_self seen hfresh)
      rw [hstep (limit + 1) first s _ (stops_brace rest) hs, membersUpTo]
      exact bind_of_ok (name?_blank_brace false hw rest)
  | @more name text part others members hpart hothers ih =>
      obtain ⟨limit, rfl⟩ :=
        Nat.exists_eq_add_of_le' (show 1 ≤ limit from Nat.lt_of_le_of_lt (Nat.zero_le _) hlimit)
      have hfresh := hseen (name, text) List.mem_cons_self
      obtain ⟨w, hw, hstep⟩ :=
        hpart.read (hsteps (name, text) List.mem_cons_self seen hfresh)
      obtain ⟨hothersOnce, honce⟩ := List.pairwise_cons.mp honce
      rw [List.append_assoc, List.cons_append] at hs
      rw [hstep limit first s _ (stops_comma _) hs,
        ih (fun m hm => hsteps m (List.mem_cons_of_mem _ hm)) honce ?_ ?_
          (hothers.name?_comma hw _)]
      · simp
      · intro m hm hknown hmem
        rcases List.mem_cons.mp hmem with heq | hmem
        · exact hothersOnce m hm heq.symm (heq ▸ hknown)
        · exact hseen m (List.mem_cons_of_mem _ hm) hknown hmem
      · exact Nat.lt_of_succ_lt_succ hlimit

theorem Lists.length_le {inner : Bytes} (h : Lists members inner) :
    members.length ≤ inner.length := by
  induction h with
  | last h =>
      obtain ⟨w, tail, -, rfl⟩ := h.exists_quote
      simp only [List.length_cons, List.length_append, List.length_nil]
      omega
  | more h hothers ih =>
      simp only [List.length_cons, List.length_append]
      omega

/-- What stands between the braces of an object is read up to the closing one. -/
theorem IsObject.read {text : Bytes} (h : IsObject members text) (draft : List String → δ)
    (known : String → Prop)
    (hsteps : ∀ m ∈ members, ∀ seen, (known m.1 → m.1 ∉ seen) →
      Takes (member (draft seen) m.1) m.2 (draft (m.1 :: seen)))
    (honce : members.Pairwise fun m m' => m.1 = m'.1 → ¬known m.1) (rest : Bytes) :
    Reader.members (draft []) member (text.tail ++ rest) =
      .ok (draft (members.map Prod.fst).reverse, 0x7D :: rest) := by
  cases h with
  | empty hw =>
      rw [List.tail_cons, List.append_assoc, Reader.members, membersUpTo]
      exact bind_of_ok (name?_blank_brace true hw rest)
  | full h =>
      have hlength := h.length_le
      rw [List.tail_cons, List.append_assoc, List.singleton_append, Reader.members,
        h.read hsteps honce (fun m _ _ => List.not_mem_nil)
          (by simp only [List.length_append]; omega) rfl, List.append_nil]

/-! ### Records and maps -/

/-- A field of a record. -/
structure Field where
  name : String
  /-- The texts that its value may have. -/
  texts : Bytes → Prop
  /-- Without the field, the record is the same. -/
  spare : Prop

/-- The members show the fields, each at most once and in any order. Spare fields may be missing,
and there may be members of other names, with any values. -/
structure Shows (fields : List Field) (members : List (String × Bytes)) : Prop where
  known : ∀ m ∈ members, ∀ f ∈ fields, f.name = m.1 → f.texts m.2
  unknown : ∀ m ∈ members, (∀ f ∈ fields, f.name ≠ m.1) → IsJson m.2
  once : members.Pairwise fun m m' => m.1 = m'.1 → ¬∃ f ∈ fields, f.name = m.1
  missing : ∀ f ∈ fields, (∀ m ∈ members, m.1 ≠ f.name) → f.spare

/-- An object that shows the fields. -/
def IsRecord (fields : List Field) (text : Bytes) : Prop :=
  ∃ members, IsObject members text ∧ Shows fields members

/-- An object that has the entries of the map as its members, in any order. -/
def IsMap (texts : α → Bytes → Prop) (m : NameMap α) (text : Bytes) : Prop :=
  ∃ members, IsObject members text ∧ (members.map Prod.fst).Nodup ∧
    (∀ e ∈ members, ∃ a, m.get? e.1 = some a ∧ texts a e.2) ∧
    ∀ name, m.get? name ≠ none → name ∈ members.map Prod.fst

theorem IsObject.exists_cons {text : Bytes} (h : IsObject members text) :
    ∃ inner, text = 0x7B :: inner := by
  cases h with
  | empty => exact ⟨_, rfl⟩
  | full => exact ⟨_, rfl⟩

theorem IsRecord.exists_cons {fields : List Field} {text : Bytes} (h : IsRecord fields text) :
    ∃ inner, text = 0x7B :: inner := by
  obtain ⟨members, hobject, -⟩ := h
  exact hobject.exists_cons

/-- A record is read when each field takes the draft for the names before it to the draft for one
name more, and other names change nothing. -/
theorem IsRecord.read {fields : List Field} {text : Bytes} (h : IsRecord fields text)
    (hknown : ∀ f ∈ fields, ∀ seen text, f.name ∉ seen → f.texts text →
      Takes (member (draft seen) f.name) text (draft (f.name :: seen)))
    (hunknown : ∀ name, (∀ f ∈ fields, f.name ≠ name) → ∀ seen text, IsJson text →
      Takes (member (draft seen) name) text (draft (name :: seen))) :
    ∃ seen, (∀ f ∈ fields, f.name ∉ seen → f.spare) ∧ ∀ rest,
      Reader.members (draft []) member (text.tail ++ rest) = .ok (draft seen, 0x7D :: rest) := by
  obtain ⟨members, hobject, hshows⟩ := h
  refine ⟨_, fun f hf hmissing => hshows.missing f hf fun m hm heq => hmissing ?_,
    hobject.read draft (fun name => ∃ f ∈ fields, f.name = name) (fun m hm seen hfresh => ?_)
      hshows.once⟩
  · exact List.mem_reverse.mpr (List.mem_map.mpr ⟨m, hm, heq⟩)
  · by_cases hfield : ∃ f ∈ fields, f.name = m.1
    · have hseen := hfresh hfield
      obtain ⟨f, hf, hname⟩ := hfield
      have htexts := hshows.known m hm f hf hname
      rw [← hname] at hseen ⊢
      exact hknown f hf seen m.2 hseen htexts
    · have hnone : ∀ f ∈ fields, f.name ≠ m.1 := fun f hf heq => hfield ⟨f, hf, heq⟩
      exact hunknown m.1 hnone seen m.2 (hshows.unknown m hm hnone)

theorem IsMap.reads {texts : α → Bytes → Prop} {m : NameMap α} {text : Bytes}
    (h : IsMap texts m text) {reader : Reader α} (hpatient : Patient reader)
    (hreads : ∀ a text, texts a text → reader.Reads text a) : (nameMap reader).Reads text m := by
  obtain ⟨members, hobject, hnodup, hentries, hall⟩ := h
  -- The draft is the map as far as its names were seen.
  let draft (seen : List String) : NameMap α := m.filter fun name _ => seen.contains name
  let member (d : NameMap α) (name : String) : Reader (NameMap α) := do
    return d.insert name (← value name reader)
  have hsteps : ∀ e ∈ members, ∀ seen, (True → e.1 ∉ seen) →
      Takes (member (draft seen) e.1) e.2 (draft (e.1 :: seen)) := by
    intro e he seen _
    obtain ⟨a, ha, htext⟩ := hentries e he
    have hinsert : (draft seen).insert e.1 a = draft (e.1 :: seen) := by
      refine NameMap.ext_get? fun name b => ?_
      rw [NameMap.get?_insert, NameMap.get?_filter, NameMap.get?_filter, List.contains_cons]
      by_cases hname : name = e.1
      · subst hname
        simp [ha]
      · simp [hname]
    rw [← hinsert]
    exact (takes_value (fun w hw => (hreads a e.2 htext).blank hpatient hw) e.1).map _
  have hempty : draft [] = ∅ :=
    NameMap.ext_entries (List.filter_eq_nil_iff.mpr fun _ _ => Bool.false_ne_true)
  have hdraft : draft (members.map Prod.fst).reverse = m := by
    refine NameMap.ext_get? fun name a => ?_
    rw [NameMap.get?_filter, Option.filter_eq_some_iff]
    refine and_iff_left_of_imp fun ha => ?_
    have hname := hall name (by rw [ha]; exact Option.some_ne_none a)
    simpa using hname
  have honce : members.Pairwise fun e f => e.1 = f.1 → ¬True := by
    refine (List.pairwise_map.mp hnodup).imp fun hne heq => ?_
    exact absurd heq hne
  refine reads_object hobject.exists_cons fun rest => ?_
  have hread := hobject.read draft (fun _ => True) hsteps honce rest
  rw [hdraft, hempty] at hread
  exact hread

/-! ### Written texts -/

theorem spells_writeOctet {text octets : Bytes} (b : UInt8) (h : Spells text octets) :
    Spells (writeOctet b ++ text) (b :: octets) := by
  unfold writeOctet
  split
  · rename_i hmark
    rcases hmark with rfl | rfl
    · exact .short (by decide) h
    · exact .short (by decide) h
  split
  · subst b; exact .short (by decide) h
  split
  · subst b; exact .short (by decide) h
  split
  · subst b; exact .short (by decide) h
  split
  · subst b; exact .short (by decide) h
  split
  · subst b; exact .short (by decide) h
  split
  · rename_i hb
    have hlt : b.toNat < 32 := hb
    have hvalid : b.toNat.isValidChar := .inl (by omega)
    have hunit := Spells.unit (hexQuad_control hb) hvalid h
    rw [← encodePoint_eq hvalid, encodePoint_control hb] at hunit
    exact hunit
  · rename_i hmark _ _ _ _ _ hb
    exact .plain (UInt8.not_lt.mp hb) (fun hq => hmark (.inl hq)) (fun hs => hmark (.inr hs)) h

theorem isString_writeString (s : String) : IsString s (writeString s) := by
  refine ⟨(Bytes.ofString s).flatMap writeOctet, ?_, rfl⟩
  induction Bytes.ofString s with
  | nil => exact .nil
  | cons b octets ih => exact spells_writeOctet b ih

theorem isMember_writeMember (name : String) (text : Bytes) :
    IsMember name text (writeMember name text) := by
  have hblank : Blank [] := nofun
  refine ⟨writeString name, [], [], [], [], isString_writeString name, hblank, hblank, hblank,
    hblank, ?_⟩
  simp [writeMember]

theorem isObject_writeObject (members : List (String × Bytes)) :
    IsObject members (writeObject members) := by
  cases members with
  | nil => exact .empty (show Blank [] from nofun)
  | cons m rest =>
      refine .full ?_
      induction rest generalizing m with
      | nil => exact .last (isMember_writeMember m.1 m.2)
      | cons m' rest ih => exact .more (isMember_writeMember m.1 m.2) (ih m')

/-- Members that are written for fields, in their order. -/
inductive Writes : List Field → List (String × Bytes) → Prop
  | nil : Writes [] []
  | cons {f : Field} {fields : List Field} {text : Bytes} {members : List (String × Bytes)}
      (htext : f.texts text) (h : Writes fields members) :
      Writes (f :: fields) ((f.name, text) :: members)
  | skip {f : Field} {fields : List Field} {members : List (String × Bytes)} (hspare : f.spare)
      (h : Writes fields members) : Writes (f :: fields) members

theorem Writes.exists_field {fields : List Field} {members : List (String × Bytes)}
    (h : Writes fields members) : ∀ m ∈ members, ∃ f ∈ fields, f.name = m.1 := by
  induction h with
  | nil => nofun
  | cons htext h ih =>
      refine List.forall_mem_cons.mpr ⟨⟨_, List.mem_cons_self, rfl⟩, fun m hm => ?_⟩
      obtain ⟨f, hf, hname⟩ := ih m hm
      exact ⟨f, List.mem_cons_of_mem _ hf, hname⟩
  | skip hspare h ih =>
      intro m hm
      obtain ⟨f, hf, hname⟩ := ih m hm
      exact ⟨f, List.mem_cons_of_mem _ hf, hname⟩

/-- A field of another name than those of some fields is not among the members for these. -/
theorem Writes.name_ne {fields : List Field} {members : List (String × Bytes)}
    (h : Writes fields members) {name : String} (hname : ∀ f ∈ fields, name ≠ f.name) :
    ∀ m ∈ members, name ≠ m.1 := by
  rintro m hm rfl
  obtain ⟨f, hf, heq⟩ := h.exists_field m hm
  exact hname f hf heq.symm

theorem Writes.once {fields : List Field} {members : List (String × Bytes)}
    (h : Writes fields members) (hnames : fields.Pairwise fun f g => f.name ≠ g.name) :
    members.Pairwise fun m m' => m.1 ≠ m'.1 := by
  induction h with
  | nil => exact .nil
  | cons htext h ih =>
      obtain ⟨hname, hnames⟩ := List.pairwise_cons.mp hnames
      exact List.pairwise_cons.mpr ⟨h.name_ne hname, ih hnames⟩
  | skip hspare h ih => exact ih (List.pairwise_cons.mp hnames).2

theorem Writes.texts {fields : List Field} {members : List (String × Bytes)}
    (h : Writes fields members) (hnames : fields.Pairwise fun f g => f.name ≠ g.name) :
    ∀ f ∈ fields, ∀ m ∈ members, f.name = m.1 → f.texts m.2 := by
  induction h with
  | nil => nofun
  | cons htext h ih =>
      obtain ⟨hname, hnames⟩ := List.pairwise_cons.mp hnames
      refine List.forall_mem_cons.mpr ⟨List.forall_mem_cons.mpr ⟨fun _ => htext, ?_⟩, ?_⟩
      · exact fun m hm heq => absurd heq (h.name_ne hname m hm)
      · exact fun f hf => List.forall_mem_cons.mpr
          ⟨fun heq => absurd heq.symm (hname f hf), ih hnames f hf⟩
  | skip hspare h ih =>
      obtain ⟨hname, hnames⟩ := List.pairwise_cons.mp hnames
      exact List.forall_mem_cons.mpr
        ⟨fun m hm heq => absurd heq (h.name_ne hname m hm), ih hnames⟩

theorem Writes.missing {fields : List Field} {members : List (String × Bytes)}
    (h : Writes fields members) :
    ∀ f ∈ fields, (∀ m ∈ members, m.1 ≠ f.name) → f.spare := by
  induction h with
  | nil => nofun
  | cons htext h ih =>
      refine List.forall_mem_cons.mpr
        ⟨fun hnone => absurd rfl (hnone _ List.mem_cons_self), fun f hf hnone => ih f hf ?_⟩
      exact fun m hm => hnone m (List.mem_cons_of_mem _ hm)
  | skip hspare h ih => exact List.forall_mem_cons.mpr ⟨fun _ => hspare, ih⟩

/-- What is written for the fields shows them. -/
theorem Writes.isRecord {fields : List Field} {members : List (String × Bytes)}
    (h : Writes fields members) (hnames : fields.Pairwise fun f g => f.name ≠ g.name) :
    IsRecord fields (writeObject members) := by
  refine ⟨members, isObject_writeObject members, fun m hm f hf => h.texts hnames f hf m hm,
    fun m hm hnone => ?_, (h.once hnames).imp fun hne heq => absurd heq hne, h.missing⟩
  obtain ⟨f, hf, hname⟩ := h.exists_field m hm
  exact absurd hname (hnone f hf)

theorem isMap_writeObject {texts : α → Bytes → Prop} {write : α → Bytes}
    (htexts : ∀ a, texts a (write a)) (m : NameMap α) :
    IsMap texts m (writeObject (m.entries.map fun e => (e.1, write e.2))) := by
  have hnames : (m.entries.map fun e => (e.1, write e.2)).map Prod.fst =
      m.entries.map Prod.fst := by
    rw [List.map_map]
    rfl
  refine ⟨_, isObject_writeObject _, ?_, ?_, ?_⟩
  · rw [hnames, List.Nodup, List.pairwise_map]
    refine m.sorted.imp fun {e f} hlt heq => ?_
    exact String.lt_irrefl _ (heq ▸ hlt : f.1 < f.1)
  · rintro _ hmem
    obtain ⟨e, he, rfl⟩ := List.mem_map.mp hmem
    exact ⟨e.2, NameMap.get?_eq_some_iff.mpr he, htexts e.2⟩
  · intro name hname
    obtain ⟨a, ha⟩ := Option.ne_none_iff_exists'.mp hname
    rw [hnames]
    exact List.mem_map.mpr ⟨(name, a), NameMap.get?_eq_some_iff.mp ha, rfl⟩

end TokenQuota.Json
