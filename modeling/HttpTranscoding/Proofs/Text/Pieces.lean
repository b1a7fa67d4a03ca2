import HttpTranscoding.Text.Blank
import Mathlib.Data.List.DropRight

/-!
# Pieces of texts

What the pieces of a text have to do with the text, whether it was cut at a character or the
pieces are joined again, and what is left of a text without the blanks at its ends.

* `not_mem_of_mem_splitOn`, `length_splitOn`, `mem_intercalate_of_mem`: cutting and joining;
* `stripped_append`, `stripped_stripped`: blanks are taken off a text that they are put around,
  and then there are no more.
-/

namespace HttpTranscoding.Text

/-! ## Cutting and joining -/

section Pieces

variable {α : Type} {piece : List α}

/-- The pieces of a split list do not contain what it is split at. -/
theorem not_mem_of_mem_splitOn [DecidableEq α] {separator : α} {items : List α}
    (hpiece : piece ∈ items.splitOn separator) : separator ∉ piece := by
  induction items generalizing piece with
  | nil =>
    obtain rfl : piece = [] := by simpa using hpiece
    exact List.not_mem_nil
  | cons item items ih =>
    rw [List.splitOn_cons_eq_if_modifyHead] at hpiece
    by_cases hitem : item = separator
    · rw [if_pos (by simpa using hitem)] at hpiece
      obtain rfl | hpiece := List.mem_cons.mp hpiece
      · exact List.not_mem_nil
      · exact ih hpiece
    · rw [if_neg (by simpa using hitem)] at hpiece
      obtain ⟨first, others, hsplit⟩ :=
        List.exists_cons_of_ne_nil (List.splitOn_ne_nil separator items)
      rw [hsplit, List.modifyHead_cons] at hpiece
      obtain rfl | hpiece := List.mem_cons.mp hpiece
      · have hfirst : separator ∉ first := ih (hsplit ▸ List.mem_cons_self)
        simp [hfirst, Ne.symm hitem]
      · exact ih (hsplit ▸ List.mem_cons_of_mem _ hpiece)

/-- There is one more piece than there are separators. -/
theorem length_splitOn [DecidableEq α] (separator : α) (items : List α) :
    (items.splitOn separator).length = items.count separator + 1 := by
  induction items with
  | nil => rfl
  | cons item items ih =>
    rw [List.splitOn_cons_eq_if_modifyHead]
    by_cases hitem : item = separator
    · rw [if_pos (by simpa using hitem), hitem, List.length_cons, ih, List.count_cons_self]
    · rw [if_neg (by simpa using hitem), List.length_modifyHead, ih, List.count_cons_of_ne hitem]

/-- What a list of pieces is joined to has all that is in a piece. -/
theorem mem_intercalate_of_mem {separator : List α} {pieces : List (List α)} {item : α}
    (hpiece : piece ∈ pieces) (hitem : item ∈ piece) : item ∈ separator.intercalate pieces := by
  induction pieces with
  | nil => exact absurd hpiece List.not_mem_nil
  | cons first rest ih =>
    cases rest with
    | nil => simpa [← List.mem_singleton.mp hpiece] using hitem
    | cons second rest =>
      rw [List.intercalate_cons_cons, List.mem_append, List.mem_append]
      obtain rfl | hpiece := List.mem_cons.mp hpiece
      · exact .inl (.inl hitem)
      · exact .inr (ih hpiece)

end Pieces

/-! ## Blanks at the ends -/

/-- What blanks are taken off the end of is left as it begins. -/
theorem strip_prefix_dropWhile (text : List Char) : strip text <+: text.dropWhile isBlank :=
  List.rdropWhile_prefix isBlank _

theorem mem_of_mem_stripped {text : String} {c : Char} (h : c ∈ (stripped text).toList) :
    c ∈ text.toList := by
  rw [stripped, String.toList_ofList] at h
  exact (List.dropWhile_sublist _).subset ((strip_prefix_dropWhile _).subset h)

theorem dropWhile_isBlank_of_head? {text : List Char}
    (h : ∀ c, text.head? = some c → ¬isBlank c) : text.dropWhile isBlank = text := by
  cases text with
  | nil => rfl
  | cons c text => exact List.dropWhile_cons_of_neg (h c rfl)

/-- Blanks that are put around a text are taken off again. -/
theorem stripped_append {before text after : String} (hbefore : ∀ c ∈ before.toList, isBlank c)
    (hafter : ∀ c ∈ after.toList, isBlank c)
    (hfirst : ∀ c, text.toList.head? = some c → ¬isBlank c)
    (hlast : ∀ c, text.toList.getLast? = some c → ¬isBlank c) :
    stripped (before ++ text ++ after) = text := by
  have hreverse : ∀ c ∈ after.toList.reverse, isBlank c := fun c hc =>
    hafter c (List.mem_reverse.mp hc)
  rw [stripped, strip, String.toList_append, String.toList_append, List.append_assoc,
    List.dropWhile_append_of_pos hbefore]
  by_cases hempty : text.toList = []
  · rw [hempty, List.nil_append, List.dropWhile_eq_nil_iff.mpr hafter]
    exact (String.toList_eq_nil_iff.mp hempty).symm
  · have hbegin : (text.toList ++ after.toList).dropWhile isBlank = text.toList ++ after.toList :=
      dropWhile_isBlank_of_head? (by rwa [List.head?_append_of_ne_nil _ hempty])
    have hend : text.toList.reverse.dropWhile isBlank = text.toList.reverse :=
      dropWhile_isBlank_of_head? (by rwa [List.head?_reverse])
    rw [hbegin, List.reverse_append, List.dropWhile_append_of_pos hreverse, hend,
      List.reverse_reverse, String.ofList_toList]

theorem stripped_of_not_isBlank {text : String} (h : ∀ c ∈ text.toList, ¬isBlank c) :
    stripped text = text := by
  have hpadded : stripped ("" ++ text ++ "") = text :=
    stripped_append (by simp) (by simp) (fun c hc => h c (List.mem_of_mem_head? hc))
      fun c hc => h c (List.mem_of_getLast? hc)
  simpa using hpadded

/-- There are no more blanks to take off. -/
theorem strip_strip (text : List Char) : strip (strip text) = strip text := by
  have hbegin : (strip text).dropWhile isBlank = strip text := by
    have hpre := strip_prefix_dropWhile text
    refine List.dropWhile_eq_self_iff.mpr fun hpos => ?_
    rw [hpre.getElem hpos]
    exact List.dropWhile_get_zero_not _ _ (hpos.trans_le hpre.length_le)
  have hend : (strip text).rdropWhile isBlank = strip text := List.rdropWhile_idempotent _ _
  calc strip (strip text) = ((strip text).dropWhile isBlank).rdropWhile isBlank := rfl
    _ = strip text := by rw [hbegin, hend]

theorem stripped_stripped (text : String) : stripped (stripped text) = stripped text := by
  rw [stripped, stripped, String.toList_ofList, strip_strip]

end HttpTranscoding.Text
