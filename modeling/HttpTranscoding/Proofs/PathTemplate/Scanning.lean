import HttpTranscoding.Proofs.PathTemplate.Grammar

/-!
# Scanning path templates

The variables of a template, found in one go from left to right: where a variable begins it is
taken whole, and elsewhere a character is skipped (`Scans`). Every template has exactly one
scan, and it finds what cutting the template at its closing braces does.

* `scans_iff`: what a scan finds;
* `namesIn_scanned`: what is a variable in a template, and that no brace which begins none
  hides another.
-/

namespace HttpTranscoding.PathTemplate

/-- Scanning the template from left to right finds variables of the given names. -/
inductive Scans : List Char → List String → Prop
  | done : Scans [] []
  | found {v : Variable} {rest : List Char} {names : List String} (scan : Scans rest names) :
    Scans (v.text ++ rest) (String.ofList v.name :: names)
  | skipped {c : Char} {rest : List Char} {names : List String}
      (none : ∀ v : Variable, ¬v.text <+: c :: rest) (scan : Scans rest names) :
    Scans (c :: rest) names

theorem scans_variableNames (template : List Char) :
    Scans template ((variableNames template).map String.ofList) := by
  induction template using reading_induction with
  | nil => exact .done
  | found v rest ih =>
    rw [variableNames_variable_append]
    exact .found ih
  | skipped c rest none ih =>
    rw [variableNames_cons none]
    exact .skipped none ih

theorem Scans.eq {template : List Char} {names : List String} (h : Scans template names) :
    (variableNames template).map String.ofList = names := by
  induction h with
  | done => rfl
  | found _ ih => rw [variableNames_variable_append, List.map_cons, ih]
  | skipped none _ ih => rw [variableNames_cons none, ih]

theorem scans_iff {template : String} {names : List String} :
    Scans template.toList names ↔ namesIn template = names :=
  ⟨Scans.eq, fun h => h ▸ scans_variableNames template.toList⟩

/-- The variables of a template are determined by the text. At no place there begins more than
one, and it ends with the first closing brace that follows. The names are those that a scan
finds which takes a variable whole wherever it gets to one, and otherwise skips a character. So
nothing hides a variable but another that begins before it and has not ended: what follows a
text, be it an opening brace that begins no variable, is read as it would be by itself. Names
are not empty and have no closing brace, no equals sign and no blanks. -/
theorem namesIn_scanned :
    (∀ (rest : List Char) (v w : Variable), v.text <+: rest → w.text <+: rest →
      v.text = w.text ∧ v.name = w.name) ∧
    (∀ (rest : List Char) (v : Variable), v.text <+: rest →
      v.text = rest.takeWhile (· ≠ '}') ++ ['}']) ∧
    (∀ (template : String) (names : List String),
      namesIn template = names ↔ Scans template.toList names) ∧
    (∀ rest : String, (∀ v : Variable, ¬v.text <+: '{' :: rest.toList) →
      namesIn (String.singleton '{' ++ rest) = namesIn rest) ∧
    (∀ front rest : String,
      (∀ i < front.length, ∀ v : Variable, v.text <+: (front ++ rest).toList.drop i →
        i + v.text.length ≤ front.length) →
      namesIn (front ++ rest) = namesIn front ++ namesIn rest) ∧
    ∀ (template : String), ∀ name ∈ namesIn template,
      name ≠ "" ∧ ∀ c ∈ name.toList, c ≠ '}' ∧ c ≠ '=' ∧ ¬Text.isBlank c := by
  refine ⟨fun rest v w hv hw => ?_, fun rest v => Variable.text_eq, fun template names =>
    scans_iff.symm, fun rest h => ?_, fun front rest h => ?_,
    fun template name => plain_of_mem_namesIn⟩
  · have htext : v.text = w.text := by rw [Variable.text_eq hv, Variable.text_eq hw]
    exact ⟨htext, Variable.name_eq_of_text_eq htext⟩
  · have hbrace : (String.singleton '{' ++ rest).toList = '{' :: rest.toList := by simp
    rw [namesIn, hbrace, variableNames_cons h, namesIn]
  · rw [String.toList_append] at h
    rw [namesIn, String.toList_append, variableNames_append h, List.map_append, namesIn, namesIn]

/-- Two opening braces that begin no variable, and two that do. -/
example : namesIn "/v1/{a b}{ }/{c=d/*}/{ e =}" = ["c", "e"] := by cbv

end HttpTranscoding.PathTemplate
