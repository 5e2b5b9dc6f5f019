import TokenQuota.Json.Reader
import TokenQuota.Json.Writer

/-!
The tokens of a written text read back: numbers, truth values and strings. What follows a token
matters only so far as it must not go on with it.
-/

namespace TokenQuota

open Json

namespace Digits

/-- A written number starts with a digit, which is zero only if nothing follows. -/
theorem exists_cons_ofNat (n : Nat) :
    ∃ d ds, ofNat n = ofDigit d :: ds ∧ d < 10 ∧ (d = 0 → n = 0 ∧ ds = []) := by
  induction n using ofNat.induct with
  | case1 n hn =>
      rw [ofNat, if_pos hn]
      exact ⟨n, [], rfl, hn, fun h => ⟨h, rfl⟩⟩
  | case2 n hn ih =>
      obtain ⟨d, ds, hds, hd, hzero⟩ := ih
      rw [ofNat, if_neg hn, hds]
      refine ⟨d, ds ++ [ofDigit (n % 10)], rfl, hd, ?_⟩
      intro h
      have hdiv := (hzero h).1
      omega

theorem ofDigit_eq_zero_iff {d : Nat} (hd : d < 10) : ofDigit d = 0x30 ↔ d = 0 := by
  constructor
  · intro h
    have hvalue := congrArg value h
    rw [value_ofDigit hd] at hvalue
    exact hvalue
  · rintro rfl
    rfl

theorem le_foldl_digits (digits : Bytes) (n : Nat) :
    n ≤ digits.foldl (fun n b => 10 * n + value b) n := by
  induction digits generalizing n with
  | nil => simp
  | cons b rest ih =>
      rw [List.foldl_cons]
      exact Nat.le_trans (by omega : n ≤ 10 * n + value b) (ih _)

/-- As long as all digits fit into 64 bits, none is left out. -/
theorem appendDigits_eq_foldl {digits : Bytes} {n : Nat}
    (h : digits.foldl (fun n b => 10 * n + value b) n ≤ maxUnsigned) :
    appendDigits n digits = (digits.foldl (fun n b => 10 * n + value b) n, 0) := by
  induction digits generalizing n with
  | nil => rfl
  | cons b rest ih =>
      rw [List.foldl_cons] at h ⊢
      have hnext : ¬maxUnsigned < 10 * n + value b :=
        Nat.not_lt.mpr (Nat.le_trans (le_foldl_digits rest _) h)
      rw [appendDigits, if_neg hnext]
      exact ih h

theorem appendDigits_ofNat {n : Nat} (h : n ≤ maxUnsigned) :
    appendDigits 0 (ofNat n) = (n, 0) := by
  have hfold : (ofNat n).foldl (fun n b => 10 * n + value b) 0 = n := toNat_ofNat n
  rw [appendDigits_eq_foldl (by rw [hfold]; exact h), hfold]

end Digits

namespace Json

/-- What follows a value: nothing, or an octet that no value goes on with. -/
def Stops (rest : Bytes) : Prop :=
  ∀ b ∈ rest.head?, b ∈ [0x2C, 0x5D, 0x7D, 0x20, 0x09, 0x0A, 0x0D]

theorem stops_nil : Stops [] := by
  intro b hb
  simp at hb

theorem stops_comma (rest : Bytes) : Stops (0x2C :: rest) := by
  intro b hb
  simp only [List.head?_cons, Option.mem_some_iff] at hb
  subst hb
  decide

theorem stops_brace (rest : Bytes) : Stops (0x7D :: rest) := by
  intro b hb
  simp only [List.head?_cons, Option.mem_some_iff] at hb
  subst hb
  decide

/-- The octets after a number are neither digits nor a point or an exponent. -/
theorem Stops.notNumeric {b : UInt8} {rest : Bytes} (h : Stops (b :: rest)) :
    Digits.isDigit b = false ∧ b ≠ 0x2E ∧ b ≠ 0x65 ∧ b ≠ 0x45 := by
  have hb := h b (by simp)
  revert hb
  simp only [List.mem_cons, List.not_mem_nil, or_false]
  rintro (rfl | rfl | rfl | rfl | rfl | rfl | rfl) <;> decide

theorem Stops.takeWhile_digits {rest : Bytes} (h : Stops rest) :
    rest.takeWhile Digits.isDigit = [] := by
  cases rest with
  | nil => rfl
  | cons b rest => simp [h.notNumeric.1]

theorem Stops.dropWhile_digits {rest : Bytes} (h : Stops rest) :
    rest.dropWhile Digits.isDigit = rest := by
  cases rest with
  | nil => rfl
  | cons b rest => simp [h.notNumeric.1]

theorem afterDigits_of_stops {rest : Bytes} (h : Stops rest) (negative : Bool)
    (significand : Nat) :
    afterDigits negative significand 0 rest = afterDigits.whole negative significand 0 rest := by
  unfold afterDigits
  split
  · exact absurd rfl h.notNumeric.2.1
  · rename_i b rest _
    rw [if_neg (by simp [h.notNumeric.2.2.1, h.notNumeric.2.2.2])]
  · rfl

/-- Reading the digits of a number gives its significand, whatever its sign. -/
theorem unsignedNumber_ofNat {n : Nat} (hn : n ≤ maxUnsigned) {rest : Bytes} (h : Stops rest)
    (negative : Bool) :
    unsignedNumber negative (Digits.ofNat n ++ rest) =
      afterDigits.whole negative n 0 rest := by
  obtain ⟨d, ds, hds, hd, hzero⟩ := Digits.exists_cons_ofNat n
  have hdigits : ∀ b ∈ Digits.ofNat n, Digits.isDigit b = true :=
    fun b hb => Digits.isDigit_of_mem_ofNat hb
  have htake : (Digits.ofNat n ++ rest).takeWhile Digits.isDigit = Digits.ofNat n := by
    rw [List.takeWhile_append_of_pos hdigits, h.takeWhile_digits, List.append_nil]
  have hdrop : (Digits.ofNat n ++ rest).dropWhile Digits.isDigit = rest := by
    rw [List.dropWhile_append_of_pos hdigits, h.dropWhile_digits]
  rw [hds, List.cons_append] at htake hdrop ⊢
  rw [unsignedNumber]
  by_cases h0 : d = 0
  · obtain ⟨rfl, rfl⟩ := hzero h0
    subst h0
    have hnext : (rest.head?.map Digits.isDigit).getD false = false := by
      cases rest with
      | nil => rfl
      | cons b rest => simp [h.notNumeric.1]
    simp only [List.nil_append, hnext]
    rw [if_pos ((Digits.ofDigit_eq_zero_iff hd).mpr rfl)]
    exact afterDigits_of_stops h negative 0
  · rw [if_neg (mt (Digits.ofDigit_eq_zero_iff hd).mp h0), if_pos (Digits.isDigit_ofDigit hd),
      htake, hdrop, ← hds, Digits.appendDigits_ofNat hn]
    exact afterDigits_of_stops h negative n

/-- A written integer reads back, as long as it is in the range of either kind of 64 bits. -/
theorem number_ofInt {i : Int} (hmin : minSigned ≤ i) (hmax : i ≤ maxUnsigned) {rest : Bytes}
    (h : Stops rest) : number (Digits.ofInt i ++ rest) = .ok (.integer i, rest) := by
  unfold Digits.ofInt
  split
  · rename_i hneg
    have hn : i.natAbs ≤ maxUnsigned := by
      simp only [minSigned, maxUnsigned] at *
      omega
    have hvalue : -(i.natAbs : Int) = i := by omega
    rw [List.cons_append, number, unsignedNumber_ofNat hn h, afterDigits.whole, hvalue]
    simp [hmin, Int.natAbs_eq_zero, show i ≠ 0 by omega]
  · rename_i hpos
    have hn : i.natAbs ≤ maxUnsigned := by omega
    have hvalue : (i.natAbs : Int) = i := by omega
    have hsign : number (Digits.ofNat i.natAbs ++ rest) =
        unsignedNumber false (Digits.ofNat i.natAbs ++ rest) := by
      obtain ⟨d, ds, hds, hd, -⟩ := Digits.exists_cons_ofNat i.natAbs
      rw [hds, List.cons_append, number]
      intro rest' hrest
      have hdigit := Digits.isDigit_ofDigit hd
      rw [(List.cons.inj hrest).1] at hdigit
      cases hdigit
    rw [hsign, unsignedNumber_ofNat hn h, afterDigits.whole]
    simp [hvalue]

theorem hexQuad_control {b : UInt8} (hb : b < 0x20) :
    hexQuad? 0x30 0x30 (Bytes.ofChar (Bytes.hexDigit (b.toNat / 16)))
      (Bytes.ofChar (Bytes.hexDigit (b.toNat % 16))) = some b.toNat := by
  have hall : ∀ n < 32, hexQuad? 0x30 0x30 (Bytes.ofChar (Bytes.hexDigit (n / 16)))
      (Bytes.ofChar (Bytes.hexDigit (n % 16))) = some n := by
    decide
  exact hall b.toNat hb

theorem encodePoint_control {b : UInt8} (hb : b < 0x20) : encodePoint b.toNat = [b] := by
  have hlt : b.toNat < 32 := hb
  rw [encodePoint, if_pos (by omega), UInt8.ofNat_toNat]

theorem escape_control {b : UInt8} (hb : b < 0x20) (rest : Bytes) :
    escape (0x75 :: 0x30 :: 0x30 :: Bytes.ofChar (Bytes.hexDigit (b.toNat / 16)) ::
      Bytes.ofChar (Bytes.hexDigit (b.toNat % 16)) :: rest) = .ok ([b], 5) := by
  have hlt : b.toNat < 32 := hb
  have htrailing : isTrailing b.toNat = false := by
    simp only [isTrailing, Bool.and_eq_false_iff, decide_eq_false_iff_not]
    omega
  have hleading : isLeading b.toNat = false := by
    simp only [isLeading, Bool.and_eq_false_iff, decide_eq_false_iff_not]
    omega
  simp only [escape, if_true, hexQuad_control hb, htrailing, hleading, encodePoint_control hb,
    Bool.false_eq_true, if_false]

theorem literal_writeOctet (b : UInt8) (rest : Bytes) :
    literal 0 (writeOctet b ++ rest) =
      (literal 0 rest).map fun (tail, after) => (b :: tail, after) := by
  unfold writeOctet
  split
  · rename_i h
    rcases h with rfl | rfl
    · rfl
    · rfl
  split
  · subst b; rfl
  split
  · subst b; rfl
  split
  · subst b; rfl
  split
  · subst b; rfl
  split
  · subst b; rfl
  split
  · rename_i hb
    simp only [List.cons_append, List.nil_append]
    rw [literal, if_neg (by decide), if_pos rfl, escape_control hb]
    rfl
  · rename_i h _ _ _ _ _ hb
    rw [List.singleton_append, literal, if_neg (fun hq => h (.inl hq)),
      if_neg (fun hq => h (.inr hq)), if_neg hb]

theorem literal_flatMap_writeOctet (octets rest : Bytes) :
    literal 0 (octets.flatMap writeOctet ++ quoteMark :: rest) = .ok (octets, rest) := by
  induction octets with
  | nil => simp [literal]
  | cons b octets ih =>
      rw [List.flatMap_cons, List.append_assoc, literal_writeOctet, ih]
      rfl

namespace Reader

/-- The text of a value, whatever follows it, is read as the value. -/
def Reads {α : Type} (reader : Reader α) (text : Bytes) (a : α) : Prop :=
  ∀ rest, Stops rest → reader (text ++ rest) = .ok (a, rest)

theorem bind_of_ok {α β : Type} {x : Reader α} {f : α → Reader β} {s rest : Bytes} {a : α}
    (h : x s = .ok (a, rest)) : (x >>= f) s = f a rest := by
  change StateT.bind x f s = _
  rw [StateT.bind, h]
  rfl

theorem map_of_ok {α β : Type} {x : Reader α} {f : α → β} {s rest : Bytes} {a : α}
    (h : x s = .ok (a, rest)) : (f <$> x) s = .ok (f a, rest) := by
  change StateT.map f x s = _
  rw [StateT.map, h]
  rfl

theorem within_of_ok {α : Type} {step : Step} {x : Reader α} {s rest : Bytes} {a : α}
    (h : x s = .ok (a, rest)) : within step x s = .ok (a, rest) := by
  rw [within, h]

theorem ofLeaf_of_ok {α : Type} {read : Bytes → Except Fault (α × Bytes)} {s rest : Bytes}
    {a : α} (h : read s = .ok (a, rest)) : ofLeaf read s = .ok (a, rest) := by
  rw [ofLeaf, h]

theorem look_cons {b : UInt8} (hb : isSpace b = false) (rest : Bytes) :
    look (b :: rest) = .ok (some b, b :: rest) := by
  simp [look, hb]

theorem start_cons {b : UInt8} (hb : isSpace b = false) (rest : Bytes) :
    start (b :: rest) = .ok (b, b :: rest) := by
  rw [start, bind_of_ok (look_cons hb rest)]
  rfl

theorem word_append (expected rest : Bytes) :
    word expected (expected ++ rest) = .ok ((), rest) := by
  induction expected with
  | nil => cases rest <;> rfl
  | cons b expected ih => simpa [word] using ih

theorem string_writeString (text : String) (rest : Bytes) :
    string (writeString text ++ rest) = .ok (text, rest) := by
  have hliteral : ofLeaf (literal 0)
      ((Bytes.ofString text).flatMap writeOctet ++ quoteMark :: rest) =
        .ok (Bytes.ofString text, rest) :=
    ofLeaf_of_ok (literal_flatMap_writeOctet _ _)
  have hskip : skipOctet (writeString text ++ rest) =
      .ok ((), (Bytes.ofString text).flatMap writeOctet ++ quoteMark :: rest) := by
    simp [skipOctet, writeString]
  rw [string, bind_of_ok hskip, bind_of_ok hliteral, Bytes.text?_ofString]
  rfl

theorem reads_text (s : String) : text.Reads (writeString s) s := by
  intro rest _
  have hstart : start (writeString s ++ rest) = .ok (quoteMark, writeString s ++ rest) :=
    start_cons (by decide) _
  rw [text, bind_of_ok hstart, if_pos rfl]
  exact string_writeString s rest

theorem reads_boolean (b : Bool) : boolean.Reads (writeBoolean b) b := by
  intro rest _
  cases b with
  | true =>
      have hstart : start (trueWord ++ rest) = .ok (0x74, trueWord ++ rest) :=
        start_cons (by decide) _
      change boolean (trueWord ++ rest) = _
      rw [boolean, bind_of_ok hstart, if_pos rfl, bind_of_ok (word_append trueWord rest)]
      rfl
  | false =>
      have hstart : start (falseWord ++ rest) = .ok (0x66, falseWord ++ rest) :=
        start_cons (by decide) _
      change boolean (falseWord ++ rest) = _
      rw [boolean, bind_of_ok hstart, if_neg (by decide), if_pos rfl,
        bind_of_ok (word_append falseWord rest)]
      rfl

/-- The first octet of a written integer: it starts a number, and is no white space. -/
theorem exists_cons_ofInt (i : Int) :
    ∃ b rest, Digits.ofInt i = b :: rest ∧ startsNumber b = true ∧ isSpace b = false := by
  unfold Digits.ofInt
  split
  · exact ⟨0x2D, _, rfl, by decide, by decide⟩
  · obtain ⟨d, ds, hds, hd, -⟩ := Digits.exists_cons_ofNat i.natAbs
    have hdigits : ∀ d < 10, startsNumber (Digits.ofDigit d) = true ∧
        isSpace (Digits.ofDigit d) = false := by
      decide
    exact ⟨_, ds, hds, (hdigits d hd).1, (hdigits d hd).2⟩

theorem reads_integer (expected : String) {least greatest i : Int} (hleast : least ≤ i)
    (hgreatest : i ≤ greatest) (hmin : minSigned ≤ i) (hmax : i ≤ maxUnsigned) :
    (integer expected least greatest).Reads (Digits.ofInt i) i := by
  intro rest hrest
  obtain ⟨b, ds, hds, hnumber, hspace⟩ := exists_cons_ofInt i
  have hstart : start (Digits.ofInt i ++ rest) = .ok (b, Digits.ofInt i ++ rest) := by
    rw [hds]
    exact start_cons hspace _
  have hread : ofLeaf number (Digits.ofInt i ++ rest) = .ok (.integer i, rest) :=
    ofLeaf_of_ok (number_ofInt hmin hmax hrest)
  rw [integer, bind_of_ok hstart, if_pos hnumber, bind_of_ok hread]
  simp only [hleast, hgreatest, and_self, if_true]
  rfl

theorem reads_signed (i : Int64) : signed.Reads (Digits.ofInt i.toInt) i := by
  intro rest hrest
  have hmin : minSigned ≤ i.toInt := Int64.le_toInt i
  have hmax : i.toInt ≤ maxSigned := Int64.toInt_le i
  have hread := reads_integer "i64" hmin hmax hmin
    (by simp only [maxSigned, maxUnsigned] at *; omega) rest hrest
  rw [signed, map_of_ok hread, Int64.ofInt_toInt]

theorem ofInt_natCast (n : Nat) : Digits.ofInt n = Digits.ofNat n := by
  rw [Digits.ofInt, if_neg (by omega), Int.natAbs_natCast]

theorem reads_integer_unsigned (expected : String) (n : UInt64) :
    (integer expected 0 maxUnsigned).Reads (Digits.ofNat n.toNat) n.toNat := by
  have hmax : n.toNat ≤ maxUnsigned := Nat.le_of_lt_succ n.toNat_lt
  rw [← ofInt_natCast]
  exact reads_integer expected (by omega) (by omega)
    (by simp only [minSigned]; omega) (by omega)

theorem reads_unsigned (n : UInt64) : unsigned.Reads (Digits.ofNat n.toNat) n := by
  intro rest hrest
  rw [unsigned, bind_of_ok (reads_integer_unsigned "u64" n rest hrest), Int.toNat_natCast,
    UInt64.ofNat_toNat]
  rfl

theorem reads_count (n : UInt64) : count.Reads (Digits.ofNat n.toNat) n := by
  intro rest hrest
  rw [count, bind_of_ok (reads_integer_unsigned "usize" n rest hrest), Int.toNat_natCast,
    UInt64.ofNat_toNat]
  rfl

end Reader

end Json

end TokenQuota
