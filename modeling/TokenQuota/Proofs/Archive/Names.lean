import TokenQuota.Archive.Folder
import TokenQuota.Proofs.Text.Bytes
import TokenQuota.Proofs.Text.Lines

/-!
The names of the files in which contents are kept. A digest is a word of 64 hexadecimal digits, so
each name stands for a file in the directory itself, and different names never meet.
-/

namespace TokenQuota

namespace Bytes

theorem hexDigit_visible : ∀ n < 16, Text.isBlank (hexDigit n) = false := by decide

end Bytes

namespace Digest

theorem length_bigEndian (count n : Nat) : (bigEndian count n).length = count := by
  induction count generalizing n with
  | zero => rfl
  | succ count ih => rw [bigEndian, List.length_append, ih, List.length_singleton]

theorem length_sha256 (message : Bytes) : (sha256 message).length = 32 := by
  simp [sha256, length_bigEndian]

theorem length_contentHash (content : Bytes) : (contentHash content).toList.length = 64 := by
  rw [contentHash, Bytes.length_hex, length_sha256]

theorem mem_contentHash {content : Bytes} {c : Char} (h : c ∈ (contentHash content).toList) :
    ∃ n < 16, c = Bytes.hexDigit n :=
  Bytes.mem_hex h

theorem isWord_contentHash (content : Bytes) : Text.IsWord (contentHash content) := by
  constructor
  · intro hempty
    have hlength := length_contentHash content
    rw [hempty] at hlength
    cases hlength
  · intro c hc
    obtain ⟨n, hn, rfl⟩ := mem_contentHash hc
    exact Bytes.hexDigit_visible n hn

end Digest

namespace Directory

/-- A name that stands for an entry of the directory itself. -/
structure IsPlain (name : String) : Prop where
  notEmpty : name ≠ ""
  notHere : name ≠ "."
  notAbove : name ≠ ".."
  inside : '/' ∉ name.toList
  noZero : '\x00' ∉ name.toList
  short : (Bytes.ofString name).length ≤ longestName

theorem IsPlain.pathParts_eq {name : String} (h : IsPlain name) : pathParts name = [name] := by
  have hpart : (!(name.isEmpty || name == ".")) = true := by simp [h.notEmpty, h.notHere]
  rw [pathParts, Text.splitOn_of_notMem h.inside, List.map_singleton, String.ofList_toList,
    List.filter_cons, if_pos hpart, List.filter_nil]

theorem IsPlain.not_startsWith {name : String} (h : IsPlain name) :
    name.startsWith "/" = false := by
  rw [String.startsWith_string_eq_false_iff]
  rintro ⟨rest, hrest⟩
  apply h.inside
  rw [← hrest]
  simp

/-- At a plain name stands the entry of that name. -/
theorem node_of_isPlain {d : Directory} {name : String} (h : IsPlain name) (hd : d ≠ .blocked) :
    d.node name = (d.nodes.get? name).elim (.error .noFile) .ok := by
  have hzero : ¬name.toList.contains '\x00' = true := by simpa using h.noZero
  have hroot : ¬name.startsWith "/" = true := by simp [h.not_startsWith]
  cases d with
  | absent => rw [node, if_neg hzero, if_neg hroot]; rfl
  | blocked => exact absurd rfl hd
  | present nodes =>
      rw [node, if_neg hzero, if_neg hroot, h.pathParts_eq, follow,
        if_neg (Nat.not_lt.mpr h.short), if_neg h.notAbove]
      change _ = (nodes.get? name).elim _ _
      rcases nodes.get? name with - | (- | -) <;> rfl

end Directory

namespace Folder

open TokenQuota.Directory

theorem toList_contentFile (hash : String) :
    (contentFile hash).toList = hash.toList ++ ".json".toList :=
  String.toList_append

theorem toList_draftFile (name : String) :
    (draftFile name).toList = ".".toList ++ (name.toList ++ ".tmp".toList) := by
  change ("." ++ name ++ ".tmp").toList = _
  rw [String.toList_append, String.toList_append, List.append_assoc]

theorem contentFile_inj {hash hash' : String} (h : contentFile hash = contentFile hash') :
    hash = hash' := by
  have hlist := congrArg String.toList h
  rw [toList_contentFile, toList_contentFile, List.append_left_inj] at hlist
  exact String.toList_inj.mp hlist

theorem getLast?_contentFile (hash : String) : (contentFile hash).toList.getLast? = some 'n' := by
  rw [toList_contentFile, List.getLast?_append]
  rfl

theorem getLast?_draftFile (name : String) : (draftFile name).toList.getLast? = some 'p' := by
  rw [toList_draftFile, List.getLast?_append, List.getLast?_append]
  rfl

/-- The names of files end in different letters. -/
theorem ne_of_getLast? {name name' : String} (c c' : Char) (h : name.toList.getLast? = some c)
    (h' : name'.toList.getLast? = some c') (hc : c ≠ c') : name ≠ name' := by
  rintro rfl
  rw [h, Option.some.injEq] at h'
  exact hc h'

theorem currentFile_ne_indexFile : currentFile ≠ indexFile := by decide

theorem contentFile_ne_currentFile (hash : String) : contentFile hash ≠ currentFile :=
  ne_of_getLast? 'n' 't' (getLast?_contentFile hash) rfl (by decide)

theorem contentFile_ne_indexFile (hash : String) : contentFile hash ≠ indexFile :=
  ne_of_getLast? 'n' 'x' (getLast?_contentFile hash) rfl (by decide)

theorem contentFile_ne_draftFile (hash name : String) : contentFile hash ≠ draftFile name :=
  ne_of_getLast? 'n' 'p' (getLast?_contentFile hash) (getLast?_draftFile name) (by decide)

theorem indexFile_ne_draftFile (name : String) : indexFile ≠ draftFile name :=
  ne_of_getLast? 'x' 'p' rfl (getLast?_draftFile name) (by decide)

theorem isPlain_currentFile : IsPlain currentFile := by
  constructor <;> decide +kernel

theorem isPlain_indexFile : IsPlain indexFile := by
  constructor <;> decide +kernel

theorem length_contentFile_contentHash (content : Bytes) :
    (Bytes.ofString (contentFile (Digest.contentHash content))).length = 69 := by
  have hash : String.ofList (Digest.contentHash content).toList = Digest.contentHash content :=
    String.ofList_toList
  have hsplit : contentFile (Digest.contentHash content) =
      String.ofList (Digest.contentHash content).toList ++ ".json" := by
    rw [← String.toList_inj, toList_contentFile, String.toList_append, hash]
  rw [hsplit, Bytes.length_ofString_append, Bytes.length_ofString_ofList,
    Digest.length_contentHash]
  · rfl
  · intro c hc
    obtain ⟨n, hn, rfl⟩ := Digest.mem_contentHash hc
    exact (Bytes.hexDigit_plain n hn).2.2

theorem isPlain_contentFile (content : Bytes) :
    IsPlain (contentFile (Digest.contentHash content)) := by
  have hlast := getLast?_contentFile (Digest.contentHash content)
  have hending : (".json".toList.all fun c => c ≠ '/' ∧ c ≠ '\x00') = true := by decide
  have hchars : ∀ c ∈ (contentFile (Digest.contentHash content)).toList,
      c ≠ '/' ∧ c ≠ '\x00' := by
    intro c hc
    rw [toList_contentFile] at hc
    rcases List.mem_append.mp hc with hc | hc
    · obtain ⟨n, hn, rfl⟩ := Digest.mem_contentHash hc
      exact ⟨(Bytes.hexDigit_plain n hn).1, (Bytes.hexDigit_plain n hn).2.1⟩
    · exact of_decide_eq_true (List.all_eq_true.mp hending c hc)
  constructor
  · intro hempty
    rw [hempty] at hlast
    cases hlast
  · exact ne_of_getLast? 'n' '.' hlast rfl (by decide)
  · exact ne_of_getLast? 'n' '.' hlast rfl (by decide)
  · exact fun hslash => (hchars _ hslash).1 rfl
  · exact fun hzero => (hchars _ hzero).2 rfl
  · rw [length_contentFile_contentHash]
    decide

end Folder

end TokenQuota
