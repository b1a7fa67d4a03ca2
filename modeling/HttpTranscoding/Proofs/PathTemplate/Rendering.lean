import HttpTranscoding.Proofs.PathTemplate.Grammar

/-!
# Templates made of segments

Templates that are put together from ordinary text and variables (`Segment`). Neither text that
comes before a closing brace nor ordinary text without opening braces has a part in how the
rest is read, so a template has the variables that it was made of, whatever their patterns are
(`namesIn_composed`).
-/

namespace HttpTranscoding.PathTemplate

/-- Part of a template: text without opening braces, or a variable. -/
inductive Segment
  | literal (text : List Char) (plain : '{' ∉ text)
  | capture (v : Variable)

namespace Segment

def text : Segment → List Char
  | literal text _ => text
  | capture v => v.text

/-- The name of the variable, if the segment is one. -/
def name? : Segment → Option (List Char)
  | literal _ _ => none
  | capture v => some v.name

/-- The template that is made of the segments. -/
def render (segments : List Segment) : String :=
  String.ofList (segments.flatMap text)

/-- The names of the variables among the segments. -/
def names (segments : List Segment) : List String :=
  (segments.filterMap name?).map String.ofList

end Segment

/-- Text without opening braces is read over, whatever follows. -/
theorem variableNames_literal_append {plain : List Char} (hplain : '{' ∉ plain)
    (rest : List Char) : variableNames (plain ++ rest) = variableNames rest := by
  induction plain with
  | nil => rfl
  | cons c plain ih =>
    rw [List.mem_cons, not_or] at hplain
    have hnone : ∀ v : Variable, ¬v.text <+: c :: (plain ++ rest) := fun v hv =>
      hplain.1 (List.cons_prefix_cons.mp hv).1
    rw [List.cons_append, variableNames_cons hnone, ih hplain.2]

theorem variableNames_flatMap_text (segments : List Segment) :
    variableNames (segments.flatMap Segment.text) = segments.filterMap Segment.name? := by
  induction segments with
  | nil => rfl
  | cons segment segments ih =>
    rw [List.flatMap_cons]
    cases segment with
    | literal text plain =>
      rw [Segment.text, variableNames_literal_append plain, ih]
      rfl
    | capture v =>
      rw [Segment.text, variableNames_variable_append, ih]
      rfl

/-- A template is read in two parts at any closing brace, and what is made of ordinary text and
variables has the names of the variables, in order: neither does a variable reach beyond its
closing brace, nor does what comes before it hide one. -/
theorem namesIn_composed :
    (∀ before rest : String, namesIn (before.push '}' ++ rest) =
      namesIn (before.push '}') ++ namesIn rest) ∧
    ∀ segments : List Segment, namesIn (Segment.render segments) = Segment.names segments := by
  refine ⟨fun before rest => ?_, fun segments => ?_⟩
  · have hparts : (before.push '}' ++ rest).toList = before.toList ++ '}' :: rest.toList := by simp
    have hfirst : (before.push '}').toList = before.toList ++ ['}'] := by simp
    simp only [namesIn, hparts, hfirst, ← List.map_append]
    rw [variableNames_append_closing]
  · rw [Segment.render, namesIn, String.toList_ofList, variableNames_flatMap_text, Segment.names]

end HttpTranscoding.PathTemplate
