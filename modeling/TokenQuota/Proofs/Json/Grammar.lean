import TokenQuota.Json.Skip
import TokenQuota.Proofs.Json.Tokens

/-!
The grammar of JSON texts, and that each of them is passed over as a whole. What may follow a text
is restricted, as for single tokens, since a number goes on for as long as there are digits.
-/

namespace TokenQuota.Json

/-! ### Tokens -/

/-- White space, which may stand between any two tokens. -/
def Blank (w : Bytes) : Prop := ∀ b ∈ w, b ∈ [0x20, 0x09, 0x0A, 0x0D]

def IsHex (b : UInt8) : Prop :=
  (0x30 ≤ b ∧ b ≤ 0x39) ∨ (0x41 ≤ b ∧ b ≤ 0x46) ∨ (0x61 ≤ b ∧ b ≤ 0x66)

/-- What stands between the marks of a string. -/
inductive IsContent : Bytes → Prop
  | nil : IsContent []
  | plain {b : UInt8} {text : Bytes} (hcontrol : 0x20 ≤ b) (hquote : b ≠ quoteMark)
      (hslash : b ≠ backslash) (h : IsContent text) : IsContent (b :: text)
  | short {e : UInt8} {text : Bytes} (he : e ∈ [0x22, 0x5C, 0x2F, 0x62, 0x66, 0x6E, 0x72, 0x74])
      (h : IsContent text) : IsContent (backslash :: e :: text)
  | unit {a b c d : UInt8} {text : Bytes} (hhex : ∀ x ∈ [a, b, c, d], IsHex x)
      (h : IsContent text) : IsContent (backslash :: 0x75 :: a :: b :: c :: d :: text)

/-- At least one digit. -/
def IsDigits (digits : Bytes) : Prop :=
  digits ≠ [] ∧ ∀ b ∈ digits, Digits.isDigit b = true

/-- The digits before a point: a zero stands alone. -/
def IsWhole (whole : Bytes) : Prop :=
  whole = [0x30] ∨ IsDigits whole ∧ whole.head? ≠ some 0x30

def IsFraction (fraction : Bytes) : Prop :=
  fraction = [] ∨ ∃ digits, IsDigits digits ∧ fraction = 0x2E :: digits

def IsExponent (exponent : Bytes) : Prop :=
  exponent = [] ∨ ∃ e sign digits, e ∈ [0x65, 0x45] ∧ sign ∈ [[], [0x2B], [0x2D]] ∧
    IsDigits digits ∧ exponent = e :: (sign ++ digits)

inductive IsLeaf : Bytes → Prop
  | word {word : Bytes} (h : word ∈ [Reader.nullWord, Reader.trueWord, Reader.falseWord]) :
      IsLeaf word
  | string {content : Bytes} (h : IsContent content) :
      IsLeaf (quoteMark :: (content ++ [quoteMark]))
  | number {sign whole fraction exponent : Bytes} (hsign : sign ∈ [[], [0x2D]])
      (hwhole : IsWhole whole) (hfraction : IsFraction fraction) (hexponent : IsExponent exponent) :
      IsLeaf (sign ++ (whole ++ (fraction ++ exponent)))

/-! ### Values -/

def Bracket.opening : Bracket → UInt8
  | .list => 0x5B
  | .object => 0x7B

/-- What stands before the value of a member, the colon included; items have no names. -/
def IsName : Bracket → Bytes → Prop
  | .list, name => name = []
  | .object, name => ∃ w content w', Blank w ∧ IsContent content ∧ Blank w' ∧
      name = w ++ quoteMark :: (content ++ quoteMark :: (w' ++ [0x3A]))

/-- A whole value, or what stands between two brackets, if there is anything. -/
inductive Part
  | value
  | inside (bracket : Bracket)

inductive Derives : Part → Bytes → Prop
  | leaf {text : Bytes} (h : IsLeaf text) : Derives .value text
  | empty (bracket : Bracket) {w : Bytes} (hw : Blank w) :
      Derives .value (bracket.opening :: (w ++ [bracket.closing]))
  | full {bracket : Bracket} {text : Bytes} (h : Derives (.inside bracket) text) :
      Derives .value (bracket.opening :: (text ++ [bracket.closing]))
  | last {bracket : Bracket} {name w text w' : Bytes} (hname : IsName bracket name) (hw : Blank w)
      (h : Derives .value text) (hw' : Blank w') :
      Derives (.inside bracket) (name ++ (w ++ (text ++ w')))
  | more {bracket : Bracket} {name w text w' others : Bytes} (hname : IsName bracket name)
      (hw : Blank w) (h : Derives .value text) (hw' : Blank w')
      (hothers : Derives (.inside bracket) others) :
      Derives (.inside bracket) (name ++ (w ++ (text ++ (w' ++ 0x2C :: others))))

/-- A JSON value of any shape and depth, without white space around it. -/
def IsJson (text : Bytes) : Prop := Derives .value text

/-! ### Passing over tokens -/

theorem Blank.isSpace {w : Bytes} (h : Blank w) : ∀ b ∈ w, Reader.isSpace b = true := by
  intro b hb
  have hmem := h b hb
  simp only [List.mem_cons, List.not_mem_nil, or_false] at hmem
  rcases hmem with rfl | rfl | rfl | rfl <;> decide

theorem Blank.dropWhile {w : Bytes} (h : Blank w) (s : Bytes) :
    (w ++ s).dropWhile Reader.isSpace = s.dropWhile Reader.isSpace :=
  List.dropWhile_append_of_pos h.isSpace

theorem dropWhile_cons {b : UInt8} (hb : Reader.isSpace b = false) (s : Bytes) :
    (b :: s).dropWhile Reader.isSpace = b :: s :=
  List.dropWhile_cons_of_neg (by simp [hb])

theorem Blank.stops {w rest : Bytes} (h : Blank w) (hrest : Stops rest) : Stops (w ++ rest) := by
  cases w with
  | nil => exact hrest
  | cons b w =>
      intro c hc
      cases hc
      have hb := h b List.mem_cons_self
      simp only [List.mem_cons, List.not_mem_nil, or_false] at hb ⊢
      exact .inr (.inr (.inr hb))

theorem IsHex.isSome {b : UInt8} (h : IsHex b) : (Bytes.hexValue? b).isSome = true := by
  simp only [IsHex, UInt8.le_iff_toNat_le] at h
  change (48 ≤ _ ∧ _ ≤ 57) ∨ (65 ≤ _ ∧ _ ≤ 70) ∨ (97 ≤ _ ∧ _ ≤ 102) at h
  unfold Bytes.hexValue?
  dsimp only
  split
  · rfl
  · split
    · rfl
    · split
      · rfl
      · omega

theorem isSome_hexQuad {a b c d : UInt8} (h : ∀ x ∈ [a, b, c, d], IsHex x) :
    (hexQuad? a b c d).isSome = true := by
  obtain ⟨a', ha⟩ := Option.isSome_iff_exists.mp (h a (by simp)).isSome
  obtain ⟨b', hb⟩ := Option.isSome_iff_exists.mp (h b (by simp)).isSome
  obtain ⟨c', hc⟩ := Option.isSome_iff_exists.mp (h c (by simp)).isSome
  obtain ⟨d', hd⟩ := Option.isSome_iff_exists.mp (h d (by simp)).isSome
  rw [hexQuad?, ha, hb, hc, hd]
  rfl

theorem IsContent.skip {content : Bytes} (h : IsContent content) (rest : Bytes) :
    skipLiteral 0 (content ++ quoteMark :: rest) = .ok rest := by
  induction h with
  | nil => simp [skipLiteral]
  | @plain b text hcontrol hquote hslash _ ih =>
      rw [List.cons_append, skipLiteral, if_neg hquote, if_neg hslash,
        if_neg (UInt8.not_lt.mpr hcontrol)]
      exact ih
  | @short e text he _ ih =>
      have hlength : escapeLength (e :: (text ++ quoteMark :: rest)) = .ok 1 := by
        simp only [List.mem_cons, List.not_mem_nil, or_false] at he
        rcases he with rfl | rfl | rfl | rfl | rfl | rfl | rfl | rfl <;> rfl
      rw [List.cons_append, List.cons_append, skipLiteral, if_neg (by decide), if_pos rfl, hlength]
      exact ih
  | @unit a b c d text hhex _ ih =>
      have hlength : escapeLength (0x75 :: a :: b :: c :: d :: (text ++ quoteMark :: rest)) =
          .ok 5 := by
        rw [escapeLength, if_pos rfl, if_pos (isSome_hexQuad hhex)]
      simp only [List.cons_append]
      rw [skipLiteral, if_neg (by decide), if_pos rfl, hlength]
      exact ih

/-- No digit follows. -/
def NoDigit (rest : Bytes) : Prop :=
  ∀ b ∈ rest.head?, Digits.isDigit b = false

theorem NoDigit.dropWhile {rest : Bytes} (h : NoDigit rest) :
    rest.dropWhile Digits.isDigit = rest := by
  cases rest with
  | nil => rfl
  | cons b rest => exact List.dropWhile_cons_of_neg (by simp [h b rfl])

theorem IsDigits.exists_cons {digits : Bytes} (h : IsDigits digits) :
    ∃ b rest, digits = b :: rest ∧ Digits.isDigit b = true := by
  obtain ⟨b, rest, rfl⟩ := List.exists_cons_of_ne_nil h.1
  exact ⟨b, rest, rfl, h.2 b List.mem_cons_self⟩

theorem IsDigits.skip {digits rest : Bytes} (h : IsDigits digits) (hrest : NoDigit rest) :
    skipDigits (digits ++ rest) = .ok rest := by
  have hdrop : (digits ++ rest).dropWhile Digits.isDigit = rest := by
    rw [List.dropWhile_append_of_pos h.2, hrest.dropWhile]
  obtain ⟨b, more, rfl, hb⟩ := h.exists_cons
  rw [skipDigits, if_pos (by simp [hb]), hdrop]

theorem Stops.noDigit {rest : Bytes} (h : Stops rest) : NoDigit rest := by
  cases rest with
  | nil => intro b hb; cases hb
  | cons b rest =>
      intro c hc
      cases hc
      exact h.notNumeric.1

theorem IsExponent.noDigit {exponent rest : Bytes} (h : IsExponent exponent) (hrest : Stops rest) :
    NoDigit (exponent ++ rest) := by
  rcases h with rfl | ⟨e, sign, digits, he, -, -, rfl⟩
  · exact hrest.noDigit
  · intro b hb
    cases hb
    simp only [List.mem_cons, List.not_mem_nil, or_false] at he
    rcases he with rfl | rfl <;> decide

theorem IsFraction.noDigit {fraction exponent rest : Bytes} (h : IsFraction fraction)
    (hexponent : IsExponent exponent) (hrest : Stops rest) :
    NoDigit (fraction ++ (exponent ++ rest)) := by
  rcases h with rfl | ⟨digits, -, rfl⟩
  · exact hexponent.noDigit hrest
  · intro b hb
    cases hb
    decide

theorem IsExponent.skip {exponent rest : Bytes} (h : IsExponent exponent) (hrest : Stops rest) :
    skipExponent (exponent ++ rest) = .ok rest := by
  rcases h with rfl | ⟨e, sign, digits, he, hsign, hdigits, rfl⟩
  · cases rest with
    | nil => rfl
    | cons b rest =>
        have hb := hrest.notNumeric
        unfold skipExponent
        exact if_neg (by simp [hb.2.2.1, hb.2.2.2])
  · have hletter : e = 0x65 ∨ e = 0x45 := by simpa using he
    have hskip := hdigits.skip hrest.noDigit
    rw [List.cons_append, List.append_assoc]
    unfold skipExponent
    refine (if_pos hletter).trans ?_
    simp only [List.mem_cons, List.not_mem_nil, or_false] at hsign
    rcases hsign with rfl | rfl | rfl
    · obtain ⟨b, more, rfl, hb⟩ := hdigits.exists_cons
      have hplus : b ≠ 0x2B := by rintro rfl; cases hb
      have hminus : b ≠ 0x2D := by rintro rfl; cases hb
      simp only [List.nil_append, List.cons_append] at hskip ⊢
      split
      · rename_i heq
        exact absurd (List.cons.inj heq).1 hplus
      · rename_i heq
        exact absurd (List.cons.inj heq).1 hminus
      · exact hskip
    · exact hskip
    · exact hskip

theorem IsFraction.skip {fraction exponent rest : Bytes} (h : IsFraction fraction)
    (hexponent : IsExponent exponent) (hrest : Stops rest) :
    skipNumber.skipFraction (fraction ++ (exponent ++ rest)) = .ok rest := by
  rcases h with rfl | ⟨digits, hdigits, rfl⟩
  · have hpoint : ∀ more, exponent ++ rest ≠ 0x2E :: more := by
      intro more heq
      rcases hexponent with rfl | ⟨e, sign, digits, he, -, -, rfl⟩
      · rw [List.nil_append] at heq
        subst heq
        exact absurd rfl hrest.notNumeric.2.1
      · rw [List.cons_append] at heq
        rw [(List.cons.inj heq).1] at he
        revert he
        decide
    rw [List.nil_append, skipNumber.skipFraction]
    · exact hexponent.skip hrest
    · exact hpoint
  · rw [List.cons_append, skipNumber.skipFraction, hdigits.skip (hexponent.noDigit hrest)]
    exact hexponent.skip hrest

theorem skipNumber_append {whole fraction exponent rest : Bytes} (hwhole : IsWhole whole)
    (hfraction : IsFraction fraction) (hexponent : IsExponent exponent) (hrest : Stops rest) :
    skipNumber (whole ++ (fraction ++ (exponent ++ rest))) = .ok rest := by
  have hnone := hfraction.noDigit hexponent hrest
  have hskip := hfraction.skip hexponent hrest
  generalize fraction ++ (exponent ++ rest) = more at hnone hskip
  rcases hwhole with rfl | ⟨hdigits, hzero⟩
  · have hnext : (more.head?.map Digits.isDigit).getD false = false := by
      cases more with
      | nil => rfl
      | cons b more => exact hnone b rfl
    rw [List.singleton_append, skipNumber, if_pos rfl, hnext]
    exact hskip
  · have hdrop : (whole ++ more).dropWhile Digits.isDigit = more := by
      rw [List.dropWhile_append_of_pos hdigits.2, hnone.dropWhile]
    obtain ⟨b, others, rfl, hb⟩ := hdigits.exists_cons
    rw [List.cons_append] at hdrop ⊢
    rw [skipNumber, if_neg (fun heq => hzero (congrArg some heq)), if_pos hb, hdrop]
    exact hskip

theorem skipWord_append (expected rest : Bytes) :
    skipWord expected (expected ++ rest) = .ok rest := by
  rw [skipWord, Reader.word_append]

/-- A value without parts starts with an octet of its own, and is passed over. -/
theorem IsLeaf.skip {text : Bytes} (h : IsLeaf text) :
    ∃ b tail, text = b :: tail ∧ Reader.isSpace b = false ∧ b ∉ [0x5B, 0x7B, 0x5D, 0x7D] ∧
      ∀ rest, Stops rest → skipLeaf b (b :: (tail ++ rest)) = .ok rest := by
  cases h with
  | word hword =>
      simp only [List.mem_cons, List.not_mem_nil, or_false] at hword
      rcases hword with rfl | rfl | rfl
      · exact ⟨_, _, rfl, by decide, by decide, fun rest _ => skipWord_append Reader.nullWord rest⟩
      · exact ⟨_, _, rfl, by decide, by decide, fun rest _ => skipWord_append Reader.trueWord rest⟩
      · exact ⟨_, _, rfl, by decide, by decide, fun rest _ => skipWord_append Reader.falseWord rest⟩
  | @string content hcontent =>
      refine ⟨_, _, rfl, by decide, by decide, fun rest _ => ?_⟩
      rw [List.append_assoc]
      exact hcontent.skip rest
  | @number sign whole fraction exponent hsign hwhole hfraction hexponent =>
      have hskip : ∀ rest, Stops rest →
          skipNumber (whole ++ (fraction ++ exponent) ++ rest) = .ok rest := by
        intro rest hrest
        rw [List.append_assoc, List.append_assoc]
        exact skipNumber_append hwhole hfraction hexponent hrest
      simp only [List.mem_cons, List.not_mem_nil, or_false] at hsign
      rcases hsign with rfl | rfl
      · obtain ⟨b, tail, rfl, hb⟩ : ∃ b tail, whole = b :: tail ∧ Digits.isDigit b = true := by
          rcases hwhole with rfl | ⟨hdigits, -⟩
          · exact ⟨_, _, rfl, by decide⟩
          · exact hdigits.exists_cons
        have hne : ∀ c, Digits.isDigit c = false → b ≠ c := by
          rintro c hc rfl
          cases hb.symm.trans hc
        refine ⟨b, _, rfl, ?_, ?_, fun rest hrest => ?_⟩
        · simp [Reader.isSpace, hne 0x20 rfl, hne 0x0A rfl, hne 0x09 rfl, hne 0x0D rfl]
        · simp [hne 0x5B rfl, hne 0x7B rfl, hne 0x5D rfl, hne 0x7D rfl]
        · rw [skipLeaf, if_neg (hne _ rfl), if_neg (hne _ rfl), if_neg (hne _ rfl),
            if_neg (hne _ rfl), if_pos hb]
          exact hskip rest hrest
      · exact ⟨_, _, rfl, by decide, by decide, hskip⟩

/-! ### Passing over values -/

theorem isSpace_opening (bracket : Bracket) : Reader.isSpace bracket.opening = false := by
  cases bracket <;> decide

theorem isSpace_closing (bracket : Bracket) : Reader.isSpace bracket.closing = false := by
  cases bracket <;> decide

theorem stops_closing (bracket : Bracket) (rest : Bytes) : Stops (bracket.closing :: rest) := by
  intro b hb
  cases hb
  cases bracket <;> decide

/-- A value starts with an octet that is neither white space nor the end of a list or object. -/
theorem Derives.exists_cons {text : Bytes} (h : Derives .value text) :
    ∃ b tail, text = b :: tail ∧ Reader.isSpace b = false ∧ b ∉ [0x5D, 0x7D] := by
  cases h with
  | leaf hleaf =>
      obtain ⟨b, tail, rfl, hspace, hb, -⟩ := hleaf.skip
      refine ⟨b, tail, rfl, hspace, fun hmem => hb ?_⟩
      exact List.mem_cons_of_mem _ (List.mem_cons_of_mem _ hmem)
  | empty bracket hw => exact ⟨_, _, rfl, isSpace_opening bracket, by cases bracket <;> decide⟩
  | @full bracket text h =>
      exact ⟨_, _, rfl, isSpace_opening bracket, by cases bracket <;> decide⟩

/-- The name of a member is passed over with its colon, and before an item there is nothing to
pass over. -/
theorem IsName.skip {bracket : Bracket} {name : Bytes} (h : IsName bracket name) {s more : Bytes}
    (hs : s.dropWhile Reader.isSpace = (name ++ more).dropWhile Reader.isSpace) :
    ∃ s', skipName bracket s = .ok s' ∧
      s'.dropWhile Reader.isSpace = more.dropWhile Reader.isSpace := by
  cases bracket with
  | list =>
      cases h
      exact ⟨s, rfl, hs⟩
  | object =>
      obtain ⟨w, content, w', hw, hcontent, hw', rfl⟩ := h
      refine ⟨more, ?_, rfl⟩
      have hquote : s.dropWhile Reader.isSpace =
          quoteMark :: (content ++ quoteMark :: (w' ++ 0x3A :: more)) := by
        rw [hs, List.append_assoc, hw.dropWhile, List.cons_append, dropWhile_cons (by decide)]
        simp
      have hcolon : (w' ++ 0x3A :: more).dropWhile Reader.isSpace = 0x3A :: more := by
        rw [hw'.dropWhile, dropWhile_cons (by decide)]
      rw [skipName, hquote]
      dsimp only
      rw [if_pos rfl, hcontent.skip]
      dsimp only
      rw [hcolon]
      rfl

theorem Derives.exists_cons_inside {bracket : Bracket} {text : Bytes}
    (h : Derives (.inside bracket) text) : ∃ b tail, b ≠ bracket.closing ∧
      Reader.isSpace b = false ∧ ∀ more, (text ++ more).dropWhile Reader.isSpace =
        b :: (tail ++ more) := by
  obtain ⟨name, w, value, others, hname, hw, hvalue, rfl⟩ : ∃ name w value others,
      IsName bracket name ∧ Blank w ∧ Derives .value value ∧
        text = name ++ (w ++ (value ++ others)) := by
    cases h with
    | last hname hw hvalue => exact ⟨_, _, _, _, hname, hw, hvalue, rfl⟩
    | more hname hw hvalue => exact ⟨_, _, _, _, hname, hw, hvalue, rfl⟩
  cases bracket with
  | list =>
      cases hname
      obtain ⟨b, tail, rfl, hspace, hb⟩ := hvalue.exists_cons
      refine ⟨b, tail ++ others, fun heq => hb (by simp [heq, Bracket.closing]), hspace,
        fun more => ?_⟩
      rw [List.nil_append, List.append_assoc, hw.dropWhile, List.append_assoc, List.cons_append,
        dropWhile_cons hspace, List.append_assoc]
  | object =>
      obtain ⟨w₀, content, w', hw₀, -, -, rfl⟩ := hname
      refine ⟨quoteMark, content ++ quoteMark :: (w' ++ [0x3A]) ++ (w ++ (value ++ others)),
        by decide, by decide, fun more => ?_⟩
      rw [List.append_assoc, List.append_assoc, hw₀.dropWhile, List.cons_append,
        dropWhile_cons (by decide)]
      simp

theorem Derives.dropWhile {w text : Bytes} (h : Derives .value text) (hw : Blank w)
    (more : Bytes) : (w ++ (text ++ more)).dropWhile Reader.isSpace = text ++ more := by
  obtain ⟨b, tail, rfl, hspace, -⟩ := h.exists_cons
  rw [hw.dropWhile]
  exact dropWhile_cons hspace (tail ++ more)

/-- A step before a value with parts. -/
theorem skipFrom_opening {bracket : Bracket} {s tail : Bytes}
    (hs : s.dropWhile Reader.isSpace = bracket.opening :: tail) (limit : Nat)
    (brackets : List Bracket) :
    skipFrom (limit + 1) .beforeValue brackets s =
      skipFrom limit .afterOpening (bracket :: brackets) tail := by
  cases bracket with
  | list => simp [skipFrom, hs, Bracket.opening]
  | object => simp [skipFrom, hs, Bracket.opening]

theorem skipFrom_leaf {b : UInt8} {s tail rest : Bytes}
    (hs : s.dropWhile Reader.isSpace = b :: tail) (hb : b ∉ [0x5B, 0x7B, 0x5D, 0x7D])
    (hleaf : skipLeaf b (b :: tail) = .ok rest) (limit : Nat) (brackets : List Bracket) :
    skipFrom (limit + 1) .beforeValue brackets s = skipFrom limit .afterValue brackets rest := by
  have hlist : b ≠ 0x5B := fun heq => hb (by simp [heq])
  have hobject : b ≠ 0x7B := fun heq => hb (by simp [heq])
  simp only [skipFrom, hs]
  rw [if_neg hlist, if_neg hobject, hleaf]

theorem skipFrom_closing {place : Place} (hplace : place ≠ .beforeValue) {bracket : Bracket}
    {s rest : Bytes} (hs : s.dropWhile Reader.isSpace = bracket.closing :: rest) (limit : Nat)
    (outer : List Bracket) :
    skipFrom (limit + 1) place (bracket :: outer) s = skipFrom limit .afterValue outer rest := by
  cases place with
  | beforeValue => exact absurd rfl hplace
  | afterOpening | afterValue => simp [skipFrom, hs]

/-- After an opening octet, the first member or item follows. -/
theorem skipFrom_first {bracket : Bracket} {b : UInt8} {s tail s' : Bytes}
    (hs : s.dropWhile Reader.isSpace = b :: tail) (hb : b ≠ bracket.closing)
    (hname : skipName bracket (b :: tail) = .ok s') (limit : Nat) (outer : List Bracket) :
    skipFrom (limit + 1) .afterOpening (bracket :: outer) s =
      skipFrom limit .beforeValue (bracket :: outer) s' := by
  simp [skipFrom, hs, hb, hname]

theorem skipFrom_comma {bracket : Bracket} {s others s' : Bytes}
    (hs : s.dropWhile Reader.isSpace = 0x2C :: others) (hname : skipName bracket others = .ok s')
    (limit : Nat) (outer : List Bracket) :
    skipFrom (limit + 1) .afterValue (bracket :: outer) s =
      skipFrom limit .beforeValue (bracket :: outer) s' := by
  have hcomma : 0x2C ≠ bracket.closing := by cases bracket <;> decide
  simp [skipFrom, hs, hcomma, hname]

/-- A part is passed over, in at most two steps for each of its octets. -/
def Skips : Part → Bytes → Prop
  | .value, text => ∃ k ≤ 2 * text.length, ∀ s rest,
      s.dropWhile Reader.isSpace = text ++ rest → Stops rest → ∀ limit brackets,
        skipFrom (limit + k) .beforeValue brackets s = skipFrom limit .afterValue brackets rest
  | .inside bracket, text => ∃ k ≤ 2 * text.length + 1, ∀ s rest,
      s.dropWhile Reader.isSpace =
          (text ++ bracket.closing :: rest).dropWhile Reader.isSpace →
        ∃ s', skipName bracket s = .ok s' ∧ ∀ limit outer,
          skipFrom (limit + k) .beforeValue (bracket :: outer) s' =
            skipFrom limit .afterValue outer rest

theorem Derives.skips {part : Part} {text : Bytes} (h : Derives part text) : Skips part text := by
  induction h with
  | leaf hleaf =>
      obtain ⟨b, tail, rfl, -, hb, hskip⟩ := hleaf.skip
      refine ⟨1, by simp only [List.length_cons]; omega, fun s rest hs hrest limit brackets => ?_⟩
      exact skipFrom_leaf hs hb (hskip rest hrest) limit brackets
  | @empty bracket w hw =>
      refine ⟨2, by simp only [List.length_cons]; omega, fun s rest hs _ limit brackets => ?_⟩
      rw [List.cons_append] at hs
      rw [skipFrom_opening hs (limit + 1)]
      refine skipFrom_closing (by decide) ?_ limit brackets
      rw [List.append_assoc, hw.dropWhile, List.singleton_append,
        dropWhile_cons (isSpace_closing bracket)]
  | @full bracket text h ih =>
      obtain ⟨k, hk, hskip⟩ := ih
      refine ⟨k + 2, ?_, fun s rest hs _ limit brackets => ?_⟩
      · simp only [List.length_cons, List.length_append, List.length_nil]
        omega
      · obtain ⟨b, tail, hb, hspace, hfirst⟩ := h.exists_cons_inside
        rw [List.cons_append, List.append_assoc, List.singleton_append] at hs
        obtain ⟨s', hname, hsteps⟩ := hskip (b :: (tail ++ bracket.closing :: rest)) rest
          ((dropWhile_cons hspace _).trans (hfirst _).symm)
        rw [← Nat.add_assoc, skipFrom_opening hs (limit + k + 1),
          skipFrom_first (hfirst _) hb hname, hsteps]
  | @last bracket name w text w' hname hw h hw' ih =>
      obtain ⟨k, hk, hskip⟩ := ih
      refine ⟨1 + k, by simp only [List.length_append]; omega, fun s rest hs => ?_⟩
      rw [List.append_assoc, List.append_assoc, List.append_assoc] at hs
      obtain ⟨s', hs', hvalue⟩ := hname.skip hs
      refine ⟨s', hs', fun limit outer => ?_⟩
      rw [← Nat.add_assoc, hskip s' _ (hvalue.trans (h.dropWhile hw _))
        (hw'.stops (stops_closing bracket rest)) (limit + 1)]
      refine skipFrom_closing (by decide) ?_ limit outer
      rw [hw'.dropWhile, dropWhile_cons (isSpace_closing bracket)]
  | @more bracket name w text w' others hname hw h hw' hothers ih ihothers =>
      obtain ⟨k, hk, hskip⟩ := ih
      obtain ⟨k', hk', hskip'⟩ := ihothers
      refine ⟨k' + 1 + k, ?_, fun s rest hs => ?_⟩
      · simp only [List.length_append, List.length_cons]
        omega
      · simp only [List.append_assoc, List.cons_append] at hs
        obtain ⟨s', hs', hvalue⟩ := hname.skip hs
        obtain ⟨s'', hs'', hrest⟩ := hskip' (others ++ bracket.closing :: rest) rest rfl
        refine ⟨s', hs', fun limit outer => ?_⟩
        rw [← Nat.add_assoc, hskip s' _ (hvalue.trans (h.dropWhile hw _))
          (hw'.stops (stops_comma _)), ← Nat.add_assoc, skipFrom_comma ?_ hs'', hrest]
        rw [hw'.dropWhile, dropWhile_cons (by decide)]

/-- A well-formed value is passed over, whatever its shape and depth. -/
theorem reads_skip {w text : Bytes} (h : IsJson text) (hw : Blank w) :
    Reader.skip.Reads (w ++ text) () := by
  intro rest hrest
  obtain ⟨k, hk, hskip⟩ := Derives.skips h
  obtain ⟨limit, hlimit⟩ := Nat.exists_eq_add_of_le
    (show k + 1 ≤ 2 * (w ++ text ++ rest).length + 2 by simp only [List.length_append]; omega)
  have hstart : (w ++ text ++ rest).dropWhile Reader.isSpace = text ++ rest := by
    rw [List.append_assoc, Derives.dropWhile h hw]
  refine Reader.ofLeaf_of_ok ?_
  rw [hlimit, show k + 1 + limit = limit + 1 + k by omega, hskip _ rest hstart hrest]
  rfl

end TokenQuota.Json
