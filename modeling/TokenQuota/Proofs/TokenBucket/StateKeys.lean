import TokenQuota.Proofs.Redis.Listing

/-!
The keys of the cells are printed and parsed consistently. A text looks like such a key exactly if
it has an owner, and then a scan of the store shows it. What is parsed was printed from the same
parts, and no other parts print the same key.
-/

namespace TokenQuota

namespace StateKey

/-- The last parts of the two keys of a bucket. -/
def marks : List String := [nextAvailableMark, accumulatedMark]

theorem isMark_toList_iff {mark : String} : isMark mark.toList = true ↔ mark ∈ marks := by
  simp [isMark_iff, marks, String.toList_inj]

theorem splitFirst?_isSome_iff {cs : List Char} : (splitFirst? cs).isSome ↔ ':' ∈ cs := by
  constructor
  · intro h
    obtain ⟨⟨before, after⟩, hsplit⟩ := Option.isSome_iff_exists.mp h
    rw [(splitFirst?_eq_some_iff.mp hsplit).1]
    simp
  · intro h
    obtain ⟨before, after, hcs, hbefore⟩ := List.eq_append_cons_of_mem h
    rw [splitFirst?_eq_some_iff.mpr ⟨hcs, hbefore⟩]
    rfl

/-- What a key looks like: a mark stands after the last separator, and there is another one. -/
theorem isStateKey_iff {key : String} : isStateKey key = true ↔
    ∃ before mark, splitLast? key.toList = some (before, mark) ∧ ':' ∈ before ∧
      isMark mark = true := by
  unfold isStateKey
  cases splitLast? key.toList with
  | none => simp
  | some parts =>
      obtain ⟨before, mark⟩ := parts
      simp [separator]

theorem owner?_isSome_iff {key : String} : (owner? key).isSome ↔
    ∃ before mark, splitLast? key.toList = some (before, mark) ∧ ':' ∈ before ∧
      isMark mark = true := by
  unfold owner?
  cases splitLast? key.toList with
  | none => simp
  | some parts =>
      obtain ⟨before, mark⟩ := parts
      by_cases hmark : isMark mark = true
      · simp [hmark, splitFirst?_isSome_iff]
      · simp [hmark]

/-- The two parsers agree on every text. -/
theorem isStateKey_iff_isSome_owner? {key : String} :
    isStateKey key = true ↔ (owner? key).isSome :=
  isStateKey_iff.trans owner?_isSome_iff.symm

theorem names_join {ns bucket mark : String} (hns : ':' ∉ ns.toList) (hmark : mark ∈ marks) :
    Names ns bucket (join ns bucket mark) := by
  refine names_iff.mpr ⟨hns, mark.toList, isMark_toList_iff.mpr hmark, ?_⟩
  rw [toList_join]
  simp

theorem eq_join_of_names {ns bucket key : String} (h : Names ns bucket key) :
    ∃ mark ∈ marks, key = join ns bucket mark := by
  rcases h.2 with hkey | hkey
  · exact ⟨nextAvailableMark, by simp [marks], hkey⟩
  · exact ⟨accumulatedMark, by simp [marks], hkey⟩

theorem owner?_join {ns bucket mark : String} (hns : ':' ∉ ns.toList) (hmark : mark ∈ marks) :
    owner? (join ns bucket mark) = some (ns, bucket) :=
  owner?_eq_some_iff.mpr (names_join hns hmark)

/-- The mark of a key is what stands after its last separator. -/
theorem splitLast?_join {ns bucket mark : String} (hmark : mark ∈ marks) :
    splitLast? (join ns bucket mark).toList =
      some (ns.toList ++ ':' :: bucket.toList, mark.toList) := by
  refine splitLast?_eq_some_iff.mpr ⟨?_, notMem_of_isMark (isMark_toList_iff.mpr hmark)⟩
  rw [toList_join]
  simp

/-- Different parts print different keys, if the namespaces have no separators. -/
theorem join_inj {ns bucket mark ns' bucket' mark' : String} (hns : ':' ∉ ns.toList)
    (hns' : ':' ∉ ns'.toList) (hmark : mark ∈ marks) (hmark' : mark' ∈ marks)
    (h : join ns bucket mark = join ns' bucket' mark') :
    ns = ns' ∧ bucket = bucket' ∧ mark = mark' := by
  have howner : some (ns, bucket) = some (ns', bucket') := by
    rw [← owner?_join hns hmark, h, owner?_join hns' hmark']
  have hlast : some (ns.toList ++ ':' :: bucket.toList, mark.toList) =
      some (ns'.toList ++ ':' :: bucket'.toList, mark'.toList) := by
    rw [← splitLast?_join hmark, h, splitLast?_join hmark']
  obtain ⟨rfl, rfl⟩ := Prod.mk.inj (Option.some.inj howner)
  exact ⟨rfl, rfl, String.toList_inj.mp (Prod.mk.inj (Option.some.inj hlast)).2⟩

end StateKey

namespace Redis

theorem Matches.of_literal {pattern text : List Char} {c : Char} (hc : c ≠ '*')
    (h : Matches (c :: pattern) text) : ∃ rest, text = c :: rest ∧ Matches pattern rest := by
  cases h with
  | star => exact absurd rfl hc
  | literal _ h => exact ⟨_, rfl, h⟩

theorem Matches.of_star {pattern text : List Char} (h : Matches ('*' :: pattern) text) :
    ∃ skipped rest, text = skipped ++ rest ∧ Matches pattern rest := by
  cases h with
  | star skipped h => exact ⟨skipped, _, rfl, h⟩
  | literal hc => exact absurd rfl hc

/-- The scan shows the texts with at least two separators. -/
theorem matches_pattern_iff {text : List Char} :
    Matches Exchange.pattern.toList text ↔ 2 ≤ text.count ':' := by
  have hpattern : Exchange.pattern.toList = ['*', ':', '*', ':', '*'] := by decide
  rw [hpattern]
  constructor
  · intro h
    obtain ⟨ns, _, htext, hns⟩ := h.of_star
    obtain ⟨_, hrest, hfirst⟩ := hns.of_literal (by decide)
    obtain ⟨bucket, _, hrest', hbucket⟩ := hfirst.of_star
    obtain ⟨_, hrest'', -⟩ := hbucket.of_literal (by decide)
    rw [htext, hrest, hrest', hrest'']
    simp only [List.count_append, List.count_cons_self]
    omega
  · intro h
    have hmem : ':' ∈ text := List.count_pos_iff.mp (by omega)
    obtain ⟨ns, rest, rfl, hns⟩ := List.eq_append_cons_of_mem hmem
    rw [List.count_append, List.count_eq_zero_of_not_mem hns, List.count_cons_self] at h
    have hmem' : ':' ∈ rest := List.count_pos_iff.mp (by omega)
    obtain ⟨bucket, mark, rfl⟩ := List.append_of_mem hmem'
    have hmark : Matches ['*'] mark := by
      rw [← List.append_nil mark]
      exact .star mark .nil
    exact .star ns (.literal (by decide) (.star bucket (.literal (by decide) hmark)))

end Redis

namespace StateKey

/-- A text looks like a key exactly if it has an owner, and then it has two separators and matches
the pattern of the scan. The owner of a printed key is what it was printed from, different parts
print different keys, and a text with an owner is printed from it with one of the two marks. -/
theorem parses_back :
    (∀ key, (isStateKey key = true ↔ (owner? key).isSome) ∧
      (isStateKey key = true → 2 ≤ key.toList.count ':' ∧
        Redis.Matches Redis.Exchange.pattern.toList key.toList)) ∧
    (∀ ns bucket mark, ':' ∉ ns.toList → mark ∈ marks →
      owner? (join ns bucket mark) = some (ns, bucket)) ∧
    (∀ ns bucket mark ns' bucket' mark', ':' ∉ ns.toList → ':' ∉ ns'.toList → mark ∈ marks →
      mark' ∈ marks → join ns bucket mark = join ns' bucket' mark' →
        ns = ns' ∧ bucket = bucket' ∧ mark = mark') ∧
    ∀ key ns bucket, owner? key = some (ns, bucket) →
      ':' ∉ ns.toList ∧ ∃ mark ∈ marks, key = join ns bucket mark := by
  refine ⟨fun key => ⟨isStateKey_iff_isSome_owner?, fun hkey => ?_⟩,
    fun _ _ _ => owner?_join, fun _ _ _ _ _ _ => join_inj, fun key ns bucket howner => ?_⟩
  · have hmatches := Redis.matches_pattern_of_isStateKey hkey
    exact ⟨Redis.matches_pattern_iff.mp hmatches, hmatches⟩
  · have hnames := owner?_eq_some_iff.mp howner
    exact ⟨hnames.1, eq_join_of_names hnames⟩

/-- The bucket of a key may have separators itself. -/
theorem parses_back_nested :
    isStateKey "api:a:b:TNA" = true ∧ 2 ≤ "api:a:b:TNA".toList.count ':' ∧
      owner? "api:a:b:TNA" = some ("api", "a:b") ∧
      ∃ mark ∈ marks, "api:a:b:TNA" = join "api" "a:b" mark := by
  obtain ⟨hkeys, hprinted, hinj, hparsed⟩ := parses_back
  have howner : owner? "api:a:b:TNA" = some ("api", "a:b") :=
    hprinted "api" "a:b" "TNA" (by decide) (by decide)
  have hkey : isStateKey "api:a:b:TNA" = true := (hkeys _).1.mpr (by rw [howner]; rfl)
  exact ⟨hkey, ((hkeys _).2 hkey).1, howner, (hparsed _ _ _ howner).2⟩

end StateKey

end TokenQuota
