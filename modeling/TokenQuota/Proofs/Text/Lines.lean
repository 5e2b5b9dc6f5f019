import Mathlib.Data.List.Basic
import TokenQuota.Text.Blank

/-!
A listing of words, one to a line, reads back as those words. What the text of a row is split at
stands in none of the pieces.
-/

namespace TokenQuota.Text

variable {α : Type} [DecidableEq α] {separator : α}

theorem splitOn_of_notMem {row : List α} (h : separator ∉ row) :
    splitOn separator row = [row] := by
  induction row with
  | nil => rfl
  | cons a row ih =>
      obtain ⟨hne, hrow⟩ := List.ne_and_not_mem_of_not_mem_cons h
      rw [splitOn, if_neg hne.symm, ih hrow]

theorem splitOn_append_cons {row : List α} (h : separator ∉ row) (rest : List α) :
    splitOn separator (row ++ separator :: rest) = row :: splitOn separator rest := by
  induction row with
  | nil => rw [List.nil_append, splitOn, if_pos rfl]
  | cons a row ih =>
      obtain ⟨hne, hrow⟩ := List.ne_and_not_mem_of_not_mem_cons h
      rw [List.cons_append, splitOn, if_neg hne.symm, ih hrow]

/-- Pieces that each end with a separator are found again, and nothing stands after the last. -/
theorem splitOn_flatMap {pieces : List (List α)} (h : ∀ piece ∈ pieces, separator ∉ piece) :
    splitOn separator (pieces.flatMap fun piece => piece ++ [separator]) = pieces ++ [[]] := by
  induction pieces with
  | nil => rfl
  | cons piece pieces ih =>
      obtain ⟨hpiece, hpieces⟩ := List.forall_mem_cons.mp h
      rw [List.flatMap_cons, List.append_assoc, List.singleton_append,
        splitOn_append_cons hpiece, ih hpieces]
      rfl

/-- Pieces that each come after a separator are found again, and nothing stands before the
first. -/
theorem splitOn_flatMap_cons {pieces : List (List α)} (h : ∀ piece ∈ pieces, separator ∉ piece) :
    splitOn separator (pieces.flatMap fun piece => separator :: piece) = [] :: pieces := by
  induction pieces with
  | nil => rfl
  | cons piece pieces ih =>
      obtain ⟨hpiece, hpieces⟩ := List.forall_mem_cons.mp h
      rw [List.flatMap_cons, List.cons_append, splitOn, if_pos rfl]
      cases pieces with
      | nil => rw [List.flatMap_nil, List.append_nil, splitOn_of_notMem hpiece]
      | cons next rest =>
          have hrest := ih hpieces
          rw [List.flatMap_cons, List.cons_append] at hrest ⊢
          rw [splitOn, if_pos rfl] at hrest
          rw [splitOn_append_cons hpiece, (List.cons.inj hrest).2]

/-- A text that is not empty and has no white space. -/
structure IsWord (s : String) : Prop where
  nonempty : s ≠ ""
  visible : ∀ c ∈ s.toList, isBlank c = false

theorem IsWord.notMem {s : String} (h : IsWord s) {c : Char} (hc : isBlank c = true) :
    c ∉ s.toList := by
  intro hmem
  have hvisible := h.visible c hmem
  rw [hc] at hvisible
  cases hvisible

theorem dropWhile_isBlank {cs : List Char} (h : ∀ c ∈ cs, isBlank c = false) :
    cs.dropWhile isBlank = cs := by
  cases cs with
  | nil => rfl
  | cons c cs =>
      have hc : ¬isBlank c = true := by simp [h c List.mem_cons_self]
      rw [List.dropWhile_cons, if_neg hc]

theorem IsWord.trim_eq {s : String} (h : IsWord s) : trim s = s := by
  have hreverse : ∀ c ∈ s.toList.reverse, isBlank c = false := by
    intro c hc
    exact h.visible c (List.mem_reverse.mp hc)
  rw [trim, trimChars, dropWhile_isBlank h.visible, dropWhile_isBlank hreverse,
    List.reverse_reverse, String.ofList_toList]

theorem toList_listing {words : List String} (h : words ≠ []) :
    ("\n".intercalate words ++ "\n").toList = words.flatMap fun w => w.toList ++ ['\n'] := by
  induction words with
  | nil => exact absurd rfl h
  | cons w words ih =>
      by_cases hwords : words = []
      · subst hwords
        simp
      · rw [String.intercalate_cons_of_ne_nil hwords, List.flatMap_cons, ← ih hwords]
        simp

theorem lines_listing {words : List String} (h : ∀ w ∈ words, IsWord w) (hne : words ≠ []) :
    lines ("\n".intercalate words ++ "\n") = words := by
  have hfeed : ∀ piece ∈ words.map String.toList, '\n' ∉ piece := by
    intro piece hpiece
    obtain ⟨w, hw, rfl⟩ := List.mem_map.mp hpiece
    exact (h w hw).notMem (by decide)
  have hsplit : splitOn '\n' ("\n".intercalate words ++ "\n").toList =
      words.map String.toList ++ [[]] := by
    rw [toList_listing hne, ← splitOn_flatMap hfeed, List.flatMap_map]
  have hreturn : ∀ w ∈ words, w.toList.getLast? ≠ some '\r' := by
    intro w hw hlast
    exact (h w hw).notMem (by decide) (List.mem_of_getLast? hlast)
  rw [lines, hsplit, if_pos List.getLast?_concat, List.dropLast_concat, List.map_map]
  refine (List.map_congr_left fun w hw => ?_).trans (List.map_id words)
  rw [Function.comp_apply, if_neg (hreturn w hw), String.ofList_toList]
  rfl

end TokenQuota.Text
