import TokenQuota.Http.Resource
import TokenQuota.Proofs.Config.Violations
import TokenQuota.Proofs.Text.Bytes
import TokenQuota.Proofs.Text.Lines

/-!
The parts of paths, and the names that they write. A lawful name writes itself, and every name is
written by some part, each of its octets by a percent sign and two digits.
-/

namespace TokenQuota

namespace Http

/-- A part of a path writes a name. -/
structure Writes (segment name : String) : Prop where
  noSlash : '/' ∉ segment.toList
  decodes : decodeSegment segment = some name

theorem Writes.ne_empty {segment name : String} (h : Writes segment name) (hname : name ≠ "") :
    segment ≠ "" := by
  rintro rfl
  exact hname (Option.some.inj h.decodes).symm

theorem percentDecode_of_notMem {octets : Bytes} (h : 0x25 ∉ octets) :
    percentDecode octets = octets := by
  induction octets with
  | nil => rfl
  | cons b octets ih =>
      obtain ⟨hne, hrest⟩ := List.ne_and_not_mem_of_not_mem_cons h
      rw [percentDecode, ih hrest]
      · rintro high low rest rfl
        exact absurd rfl hne

/-- A text of ASCII characters without slashes and percent signs writes itself. -/
theorem writes_self {name : String}
    (h : ∀ c ∈ name.toList, c.toNat < 128 ∧ c ≠ '/' ∧ c ≠ '%') : Writes name name := by
  constructor
  · exact fun hmem => (h '/' hmem).2.1 rfl
  · have hnot : (0x25 : UInt8) ∉ Bytes.ofString name := by
      rw [Bytes.ofString_eq, List.mem_flatMap]
      rintro ⟨c, hc, hmem⟩
      obtain ⟨hascii, -, hpercent⟩ := h c hc
      rw [Bytes.utf8EncodeChar_of_ascii hascii, List.mem_singleton] at hmem
      have hnat : c.toNat = 0x25 := by
        have hmod := congrArg UInt8.toNat hmem
        rw [UInt8.toNat_ofNat] at hmod
        exact (Nat.mod_eq_of_lt (by omega)).symm.trans hmod.symm
      exact hpercent (Char.toNat_inj.mp hnat)
    rw [decodeSegment, percentDecode_of_notMem hnot, Bytes.text?_ofString]

theorem ascii_of_isNameChar {c : Char} (h : isNameChar c = true) : c.toNat < 128 := by
  have hrange : ∀ last : Char, c ≤ last → last.toNat < 128 → c.toNat < 128 :=
    fun last hle hlast => Nat.lt_of_le_of_lt (UInt32.le_iff_toNat_le.mp hle) hlast
  rcases isNameChar_iff.mp h with ⟨-, hle⟩ | ⟨-, hle⟩ | ⟨-, hle⟩ | rfl | rfl | rfl
  · exact hrange 'z' hle (by decide)
  · exact hrange 'Z' hle (by decide)
  · exact hrange '9' hle (by decide)
  · decide
  · decide
  · decide

theorem writes_of_checkName {kind : NameKind} {name : String} (h : checkName kind name = .ok ()) :
    Writes name name := by
  refine writes_self fun c hc => ?_
  have hchar := isNameChar_of_checkName h c hc
  refine ⟨?_, ?_, ?_⟩
  · exact ascii_of_isNameChar hchar
  · rintro rfl
    exact absurd hchar (by decide)
  · rintro rfl
    exact absurd hchar (by decide)

/-- A part of a path that writes a name, every octet by a percent sign and two digits. -/
def percentEncode (name : String) : String :=
  String.ofList ((Bytes.ofString name).flatMap fun b =>
    ['%', Bytes.hexDigit (b.toNat / 16), Bytes.hexDigit (b.toNat % 16)])

theorem ofString_percentEncode (name : String) :
    Bytes.ofString (percentEncode name) = (Bytes.ofString name).flatMap fun b =>
      [0x25, UInt8.ofNat (Bytes.hexDigit (b.toNat / 16)).toNat,
        UInt8.ofNat (Bytes.hexDigit (b.toNat % 16)).toNat] := by
  rw [percentEncode, Bytes.ofString_ofList, List.flatMap_assoc]
  congr 1
  funext b
  have hb : b.toNat < 256 := b.toNat_lt
  have hpercent : String.utf8EncodeChar '%' = [0x25] := by decide
  simp only [List.flatMap_cons, List.flatMap_nil, hpercent,
    Bytes.utf8EncodeChar_of_ascii (Bytes.hexDigit_ascii _ (by omega : b.toNat / 16 < 16)),
    Bytes.utf8EncodeChar_of_ascii (Bytes.hexDigit_ascii _ (by omega : b.toNat % 16 < 16))]
  rfl

theorem percentDecode_encoded (octets : Bytes) :
    percentDecode (octets.flatMap fun b =>
      [0x25, UInt8.ofNat (Bytes.hexDigit (b.toNat / 16)).toNat,
        UInt8.ofNat (Bytes.hexDigit (b.toNat % 16)).toNat]) = octets := by
  induction octets with
  | nil => rfl
  | cons b octets ih =>
      have hb : b.toNat < 256 := b.toNat_lt
      rw [List.flatMap_cons]
      simp only [List.cons_append, List.nil_append]
      rw [percentDecode, Bytes.hexValue?_hexDigit _ (by omega),
        Bytes.hexValue?_hexDigit _ (by omega), ih]
      change UInt8.ofNat (16 * (b.toNat / 16) + b.toNat % 16) :: octets = b :: octets
      rw [Nat.div_add_mod, UInt8.ofNat_toNat]

/-- Every name is written by some part of a path. -/
theorem writes_percentEncode (name : String) : Writes (percentEncode name) name := by
  constructor
  · rw [percentEncode, String.toList_ofList, List.mem_flatMap]
    rintro ⟨b, -, hmem⟩
    have hb : b.toNat < 256 := b.toNat_lt
    have hhigh := (Bytes.hexDigit_plain _ (by omega : b.toNat / 16 < 16)).1.symm
    have hlow := (Bytes.hexDigit_plain _ (by omega : b.toNat % 16 < 16)).1.symm
    simp [hhigh, hlow] at hmem
  · rw [decodeSegment, ofString_percentEncode, percentDecode_encoded, Bytes.text?_ofString]

theorem percentEncode_ne {word : String} (hne : word ≠ "") (hplain : '%' ∉ word.toList)
    (name : String) : percentEncode name ≠ word := by
  rintro rfl
  rw [percentEncode, String.toList_ofList] at hplain
  cases hoctets : Bytes.ofString name with
  | nil => exact hne (by rw [percentEncode, hoctets]; rfl)
  | cons b octets =>
      rw [hoctets] at hplain
      exact hplain List.mem_cons_self

/-- The path of the counts of a bucket. -/
def countsPath (nsSegment bucketSegment : String) : String :=
  "/api/v1/namespaces/" ++ nsSegment ++ "/stats/" ++ bucketSegment

theorem toList_countsPath (nsSegment bucketSegment : String) :
    (countsPath nsSegment bucketSegment).toList =
      [['a', 'p', 'i'], ['v', '1'], ['n', 'a', 'm', 'e', 's', 'p', 'a', 'c', 'e', 's'],
        nsSegment.toList, ['s', 't', 'a', 't', 's'], bucketSegment.toList].flatMap
        fun piece => '/' :: piece := by
  have hstart : "/api/v1/namespaces/".toList = ['/', 'a', 'p', 'i', '/', 'v', '1', '/', 'n', 'a',
    'm', 'e', 's', 'p', 'a', 'c', 'e', 's', '/'] := String.toList_ofList
  have hmiddle : "/stats/".toList = ['/', 's', 't', 'a', 't', 's', '/'] := String.toList_ofList
  have happend (p q r s : String) :
      (p ++ q ++ r ++ s).toList = p.toList ++ q.toList ++ r.toList ++ s.toList := by simp
  unfold countsPath
  rw [happend, hstart, hmiddle, List.append_assoc, List.append_assoc]
  simp only [List.flatMap_cons, List.flatMap_nil, List.append_nil]
  rfl

theorem segments?_countsPath {t : Target} {nsSegment bucketSegment : String}
    (hpath : t.path = countsPath nsSegment bucketSegment) (hns : '/' ∉ nsSegment.toList)
    (hbucket : '/' ∉ bucketSegment.toList) :
    t.segments? = some ["api", "v1", "namespaces", nsSegment, "stats", bucketSegment] := by
  rw [Target.segments?, hpath, toList_countsPath, Text.splitOn_flatMap_cons]
  · simp only [List.map_cons, List.map_nil, String.ofList_toList]
  · simp [hns, hbucket]

/-- The path of the counts of a bucket leads to them, unless its last part is one of the two words
that lead to the lists of the namespace. -/
theorem ofTarget?_countsPath {t : Target} {nsSegment bucketSegment : String}
    (hpath : t.path = countsPath nsSegment bucketSegment) (hns : '/' ∉ nsSegment.toList)
    (hbucket : '/' ∉ bucketSegment.toList) (hne : bucketSegment ≠ "") :
    Resource.ofTarget? t = some
      (if bucketSegment = "hits" then .topHits nsSegment
        else if bucketSegment = "misses" then .topMisses nsSegment
        else .scores nsSegment bucketSegment) := by
  rw [Resource.ofTarget?, segments?_countsPath hpath hns hbucket, Option.bind_some]
  by_cases hhits : bucketSegment = "hits"
  · rw [hhits]
    rfl
  by_cases hmisses : bucketSegment = "misses"
  · rw [hmisses]
    rfl
  have hend : bucketSegment.isEmpty = false := by simpa using hne
  rw [if_neg hhits, if_neg hmisses]
  simp [Resource.ofSegments, Resource.atEnd, hend]

end Http

end TokenQuota
