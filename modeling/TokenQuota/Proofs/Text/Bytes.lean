import TokenQuota.Text.Bytes

/-!
The octets of a text are those of its characters, one octet for each that is ASCII, and hexadecimal
digits stand for octets.
-/

namespace TokenQuota.Bytes

theorem ofString_ofList (cs : List Char) :
    ofString (String.ofList cs) = cs.flatMap String.utf8EncodeChar := by
  simp [ofString, String.toUTF8, List.utf8Encode]

theorem ofString_eq (text : String) :
    ofString text = text.toList.flatMap String.utf8EncodeChar := by
  rw [← ofString_ofList, String.ofList_toList]

theorem utf8EncodeChar_of_ascii {c : Char} (h : c.toNat < 128) :
    String.utf8EncodeChar c = [UInt8.ofNat c.toNat] := by
  have hc : c.val.toNat = c.toNat := rfl
  rw [String.utf8EncodeChar]
  simp only [hc]
  rw [if_pos (by omega)]

theorem length_ofString (text : String) : (ofString text).length = text.utf8ByteSize := rfl

theorem ofString_inj {s t : String} (h : ofString s = ofString t) : s = t := by
  have htext := congrArg text? h
  rwa [text?_ofString, text?_ofString, Option.some.injEq] at htext

theorem length_ofString_append (s t : String) :
    (ofString (s ++ t)).length = (ofString s).length + (ofString t).length := by
  rw [length_ofString, length_ofString, length_ofString, String.utf8ByteSize_append]

theorem length_ofString_ofList {cs : List Char} (h : ∀ c ∈ cs, c.utf8Size = 1) :
    (ofString (String.ofList cs)).length = cs.length := by
  rw [ofString_ofList]
  induction cs with
  | nil => rfl
  | cons c cs ih =>
      obtain ⟨hc, hcs⟩ := List.forall_mem_cons.mp h
      rw [List.flatMap_cons, List.length_append, String.length_utf8EncodeChar, hc, ih hcs,
        List.length_cons, Nat.add_comm]

theorem toList_hex (octets : Bytes) :
    (hex octets).toList =
      octets.flatMap fun b => [hexDigit (b.toNat / 16), hexDigit (b.toNat % 16)] :=
  String.toList_ofList

theorem mem_hex {octets : Bytes} {c : Char} (h : c ∈ (hex octets).toList) :
    ∃ n < 16, c = hexDigit n := by
  rw [toList_hex, List.mem_flatMap] at h
  obtain ⟨b, -, hc⟩ := h
  have hb : b.toNat < 256 := b.toNat_lt
  rcases List.mem_cons.mp hc with rfl | hc
  · exact ⟨_, by omega, rfl⟩
  · rw [List.mem_singleton] at hc
    exact ⟨_, by omega, hc⟩

theorem length_hex (octets : Bytes) : (hex octets).toList.length = 2 * octets.length := by
  rw [toList_hex]
  induction octets with
  | nil => rfl
  | cons b octets ih =>
      rw [List.flatMap_cons, List.length_append, ih, List.length_cons]
      simp only [List.length_cons, List.length_nil]
      omega

theorem hexDigit_plain :
    ∀ n < 16, hexDigit n ≠ '/' ∧ hexDigit n ≠ '\x00' ∧ (hexDigit n).utf8Size = 1 := by decide

theorem hexDigit_ascii : ∀ n < 16, (hexDigit n).toNat < 128 := by decide

theorem hexValue?_hexDigit :
    ∀ n < 16, hexValue? (UInt8.ofNat (hexDigit n).toNat) = some n := by decide

end TokenQuota.Bytes
