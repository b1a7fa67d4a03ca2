import HttpTranscoding.PathTemplate
import Mathlib.Data.List.Basic
import Mathlib.Data.List.TakeWhile

/-!
# The grammar of path templates

What a variable of a template is (`Variable`), and how a template is read from its beginning.
A variable ends at the first closing brace that follows, so no more than one begins at any
place (`Variable.text_eq`). At its beginning, a template has a variable or a character to skip
(`variableNames_variable_append`, `variableNames_cons`), and `reading_induction` goes through it
in these steps.

* `variableNames_append_closing`: a template is read in two parts at any closing brace;
* `variableNames_append`: and wherever no variable goes on;
* `plain_of_mem_namesIn`: what the names are like that are read.
-/

namespace HttpTranscoding.PathTemplate

/-! ## Variables -/

/-- A pattern with its equals sign, if there is one. -/
def assignment : Option (List Char) → List Char
  | none => []
  | some pattern => '=' :: pattern

/-- A variable as it is written in a template, brace to brace. -/
structure Variable where
  /-- The blanks that the name follows. -/
  before : List Char
  name : List Char
  /-- The blanks that follow the name. -/
  after : List Char
  /-- What follows the equals sign, if there is one. -/
  pattern? : Option (List Char)
  before_blank : ∀ c ∈ before, Text.isBlank c
  name_ne_nil : name ≠ []
  name_plain : ∀ c ∈ name, c ≠ '}' ∧ c ≠ '=' ∧ ¬Text.isBlank c
  after_blank : ∀ c ∈ after, Text.isBlank c
  pattern_open : ∀ pattern ∈ pattern?, '}' ∉ pattern

namespace Variable

/-- What is written between the braces. -/
def body (v : Variable) : List Char :=
  v.before ++ (v.name ++ (v.after ++ assignment v.pattern?))

def text (v : Variable) : List Char :=
  '{' :: v.body ++ ['}']

end Variable

theorem isNameChar_iff {c : Char} :
    isNameChar c ↔ c ≠ '}' ∧ c ≠ '=' ∧ ¬Text.isBlank c := by
  simp [isNameChar, and_assoc]

theorem ne_closing_of_isBlank {c : Char} (h : Text.isBlank c) : c ≠ '}' := by
  rintro rfl
  exact absurd h (by decide)

theorem closing_not_mem_assignment_iff {pattern? : Option (List Char)} :
    '}' ∉ assignment pattern? ↔ ∀ pattern ∈ pattern?, '}' ∉ pattern := by
  cases pattern? <;> simp [assignment]

/-- A pattern and its equals sign may stand for whatever begins with the sign, if anything does. -/
theorem exists_assignment_iff {text : List Char} :
    (∃ pattern?, assignment pattern? = text) ↔ ∀ c ∈ text.head?, c = '=' := by
  constructor
  · rintro ⟨_ | pattern, rfl⟩ <;> simp [assignment]
  · intro h
    cases text with
    | nil => exact ⟨none, rfl⟩
    | cons c pattern =>
      obtain rfl : c = '=' := h c rfl
      exact ⟨some pattern, rfl⟩

/-! ## What is between the braces -/

/-- A list is taken apart where the characters of a class end. -/
theorem span_append {p : Char → Bool} {front rest : List Char} (hfront : ∀ c ∈ front, p c)
    (hrest : ∀ c ∈ rest.head?, ¬p c) :
    (front ++ rest).takeWhile p = front ∧ (front ++ rest).dropWhile p = rest := by
  rw [List.takeWhile_append_of_pos hfront, List.dropWhile_append_of_pos hfront]
  cases rest with
  | nil => simp
  | cons c rest =>
    have hc : ¬p c := hrest c rfl
    rw [List.takeWhile_cons_of_neg hc, List.dropWhile_cons_of_neg hc, List.append_nil]
    exact ⟨rfl, rfl⟩

/-- A name is read if there is one and only blanks stand between it and the equals sign or
the end. -/
theorem variableName?_eq_some_iff {body name : List Char} :
    variableName? body = some name ↔
      (body.dropWhile Text.isBlank).takeWhile isNameChar = name ∧ name ≠ [] ∧
        ∀ c ∈ (((body.dropWhile Text.isBlank).dropWhile isNameChar).dropWhile Text.isBlank).head?,
          c = '=' := by
  simp only [variableName?]
  generalize (body.dropWhile Text.isBlank).takeWhile isNameChar = found
  generalize ((body.dropWhile Text.isBlank).dropWhile isNameChar).dropWhile Text.isBlank = rest
  cases found with
  | nil => simp +contextual [eq_comm]
  | cons first found =>
    cases rest with
    | nil => simp +contextual [eq_comm]
    | cons c rest => by_cases hc : c = '=' <;> simp +contextual [hc, eq_comm]

/-- Where a name is read, a variable of that name is written, unless there is a closing brace. -/
theorem exists_variable_of_variableName? {body name : List Char} (hopen : '}' ∉ body)
    (h : variableName? body = some name) : ∃ v : Variable, v.body = body ∧ v.name = name := by
  obtain ⟨hname, hne, hassignment⟩ := variableName?_eq_some_iff.mp h
  obtain ⟨pattern?, hassignment⟩ := exists_assignment_iff.mpr hassignment
  have hbody : body.takeWhile Text.isBlank ++ (name ++
      (((body.dropWhile Text.isBlank).dropWhile isNameChar).takeWhile Text.isBlank ++
        assignment pattern?)) = body := by
    simp only [← hname, hassignment, List.takeWhile_append_dropWhile]
  have hpattern : '}' ∉ assignment pattern? := fun hmem =>
    hopen (hbody ▸ by simp only [List.mem_append, hmem, or_true])
  exact ⟨{
    before := body.takeWhile Text.isBlank
    name := name
    after := ((body.dropWhile Text.isBlank).dropWhile isNameChar).takeWhile Text.isBlank
    pattern? := pattern?
    before_blank := fun _ hc => List.mem_takeWhile_imp hc
    name_ne_nil := hne
    name_plain := fun _ hc => isNameChar_iff.mp (List.mem_takeWhile_imp (hname ▸ hc))
    after_blank := fun _ hc => List.mem_takeWhile_imp hc
    pattern_open := closing_not_mem_assignment_iff.mp hpattern }, hbody, rfl⟩

namespace Variable

variable (v : Variable)

/-- What is between the braces of a variable is read as its name. -/
@[simp]
theorem variableName?_body : variableName? v.body = some v.name := by
  have hassignment := exists_assignment_iff.mp ⟨v.pattern?, rfl⟩
  have hname : ∀ c ∈ v.name, isNameChar c := fun c hc => isNameChar_iff.mpr (v.name_plain c hc)
  have hbefore : ∀ c ∈ (v.name ++ (v.after ++ assignment v.pattern?)).head?, ¬Text.isBlank c := by
    intro c hc
    rw [List.head?_append_of_ne_nil _ v.name_ne_nil] at hc
    exact (v.name_plain c (List.mem_of_mem_head? hc)).2.2
  have hafter : ∀ c ∈ (v.after ++ assignment v.pattern?).head?, ¬isNameChar c := by
    intro c hc hplain
    rw [List.head?_append, Option.mem_def, Option.or_eq_some_iff] at hc
    obtain hc | ⟨-, hc⟩ := hc
    · exact (isNameChar_iff.mp hplain).2.2 (v.after_blank c (List.mem_of_mem_head? hc))
    · exact (isNameChar_iff.mp hplain).2.1 (hassignment c hc)
  have hend : ∀ c ∈ (assignment v.pattern?).head?, ¬Text.isBlank c := fun c hc => by
    rw [hassignment c hc]
    decide
  rw [variableName?_eq_some_iff, body, (span_append v.before_blank hbefore).2,
    (span_append hname hafter).1, (span_append hname hafter).2, (span_append v.after_blank hend).2]
  exact ⟨rfl, v.name_ne_nil, hassignment⟩

@[simp]
theorem closing_not_mem_body : '}' ∉ v.body := by
  simp only [body, List.mem_append, not_or]
  exact ⟨fun h => ne_closing_of_isBlank (v.before_blank _ h) rfl,
    fun h => (v.name_plain _ h).1 rfl, fun h => ne_closing_of_isBlank (v.after_blank _ h) rfl,
    closing_not_mem_assignment_iff.mpr v.pattern_open⟩

/-- A variable is all there is up to the first closing brace. -/
theorem text_eq {v : Variable} {rest : List Char} (h : v.text <+: rest) :
    v.text = rest.takeWhile (· ≠ '}') ++ ['}'] := by
  obtain ⟨more, rfl⟩ := h
  have hopen : ∀ c ∈ '{' :: v.body, decide (c ≠ '}') := by
    simpa using fun c hc => ne_of_mem_of_not_mem hc v.closing_not_mem_body
  have hsplit : v.text ++ more = '{' :: v.body ++ '}' :: more := by simp [text]
  rw [hsplit, (span_append hopen (by simp)).1, text]

theorem name_eq_of_text_eq {v w : Variable} (h : v.text = w.text) : v.name = w.name := by
  have hbody : v.body = w.body := by simpa [text] using h
  have hname : some v.name = some w.name := by
    rw [← v.variableName?_body, hbody, w.variableName?_body]
  exact Option.some.inj hname

end Variable

/-! ## Reading a template -/

theorem variableNames_of_not_mem {template : List Char} (h : '}' ∉ template) :
    variableNames template = [] := by
  rw [variableNames, closedPieces, List.splitOn_eq_singleton h]
  rfl

/-- What comes before a closing brace has no part in how the rest is read. -/
theorem variableNames_append_closing (before rest : List Char) :
    variableNames (before ++ '}' :: rest) =
      variableNames (before ++ ['}']) ++ variableNames rest := by
  have hpieces : ∀ more, closedPieces (before ++ '}' :: more) =
      before.splitOn '}' ++ closedPieces more := fun more => by
    rw [closedPieces, List.splitOn_append_cons_self, List.dropLast_append_of_ne_nil
      (List.splitOn_ne_nil _ _)]
    rfl
  have hnil : closedPieces [] = [] := rfl
  simp only [variableNames, hpieces, hnil, List.append_nil, List.filterMap_append]

/-- Up to the first closing brace there is at most one variable. -/
theorem variableNames_piece_append {piece : List Char} (hpiece : '}' ∉ piece) (rest : List Char) :
    variableNames (piece ++ '}' :: rest) =
      (firstVariable? piece).toList ++ variableNames rest := by
  rw [variableNames_append_closing, variableNames, closedPieces,
    List.splitOn_append_cons_self_of_not_mem hpiece]
  cases h : firstVariable? piece <;> simp [h]

/-- A variable at the beginning is read, and then what follows it. -/
theorem variableNames_variable_append (v : Variable) (rest : List Char) :
    variableNames (v.text ++ rest) = v.name :: variableNames rest := by
  have hpiece : '}' ∉ '{' :: v.body := by simp
  have hfirst : firstVariable? ('{' :: v.body) = some v.name := by simp [firstVariable?]
  have hsplit : v.text ++ rest = '{' :: v.body ++ '}' :: rest := by simp [Variable.text]
  rw [hsplit, variableNames_piece_append hpiece, hfirst]
  rfl

/-- A piece begins with no variable but that of its first brace. -/
theorem firstVariable?_cons {c : Char} {piece : List Char} (hpiece : '}' ∉ piece)
    (h : c = '{' → ∀ v : Variable, v.body ≠ piece) :
    firstVariable? (c :: piece) = firstVariable? piece := by
  rw [firstVariable?]
  by_cases hc : c = '{'
  · have hnone : variableName? piece = none := by
      refine Option.eq_none_iff_forall_ne_some.mpr fun name hname => ?_
      obtain ⟨v, hbody, -⟩ := exists_variable_of_variableName? hpiece hname
      exact h hc v hbody
    rw [if_pos hc, hnone, Option.none_or]
  · rw [if_neg hc]

/-- A character that no variable begins with is skipped. -/
theorem variableNames_cons {c : Char} {rest : List Char}
    (h : ∀ v : Variable, ¬v.text <+: c :: rest) :
    variableNames (c :: rest) = variableNames rest := by
  by_cases hclosing : '}' ∈ c :: rest
  · obtain ⟨_ | ⟨first, piece⟩, more, hsplit, hpiece⟩ := List.eq_append_cons_of_mem hclosing
    · obtain ⟨rfl, rfl⟩ := List.cons.inj hsplit
      exact variableNames_piece_append hpiece rest
    · obtain ⟨rfl, rfl⟩ : c = first ∧ rest = piece ++ '}' :: more := List.cons.inj hsplit
      have hrest : '}' ∉ piece := fun hmem => hpiece (List.mem_cons_of_mem c hmem)
      have hnone : c = '{' → ∀ v : Variable, v.body ≠ piece := by
        rintro rfl v rfl
        exact h v ⟨more, by simp [Variable.text]⟩
      rw [hsplit, variableNames_piece_append hpiece, firstVariable?_cons hrest hnone,
        variableNames_piece_append hrest]
  · rw [variableNames_of_not_mem hclosing,
      variableNames_of_not_mem fun hmem => hclosing (List.mem_cons_of_mem c hmem)]

/-- What holds of a template if it holds of what follows a variable at its beginning or, where
none begins, of what follows its first character, holds of every template. -/
theorem reading_induction {motive : List Char → Prop} (nil : motive [])
    (found : ∀ (v : Variable) (rest : List Char), motive rest → motive (v.text ++ rest))
    (skipped : ∀ (c : Char) (rest : List Char), (∀ v : Variable, ¬v.text <+: c :: rest) →
      motive rest → motive (c :: rest)) (template : List Char) : motive template := by
  induction hn : template.length using Nat.strongRecOn generalizing template with
  | ind n ih =>
    by_cases h : ∃ v : Variable, v.text <+: template
    · obtain ⟨v, rest, rfl⟩ := h
      have hlt : rest.length < n := by
        simp only [Variable.text, List.length_append, List.length_cons] at hn
        omega
      exact found v rest (ih _ hlt rest rfl)
    · cases template with
      | nil => exact nil
      | cons c rest =>
        have hlt : rest.length < n := hn ▸ Nat.lt_add_one rest.length
        exact skipped c rest (not_exists.mp h) (ih _ hlt rest rfl)

/-- A template is read in two parts wherever no variable goes on that begins in the first part. -/
theorem variableNames_append {front rest : List Char}
    (h : ∀ i < front.length, ∀ v : Variable, v.text <+: (front ++ rest).drop i →
      i + v.text.length ≤ front.length) :
    variableNames (front ++ rest) = variableNames front ++ variableNames rest := by
  induction front using reading_induction with
  | nil => rfl
  | found v more ih =>
    have hmore := ih fun i hi w hw => by
      have hend := h (v.text.length + i) (by simpa using hi) w (by
        rwa [List.append_assoc, ← List.drop_drop, List.drop_left])
      rw [List.length_append] at hend
      omega
    rw [List.append_assoc, variableNames_variable_append, variableNames_variable_append, hmore,
      List.cons_append]
  | skipped c more none ih =>
    have hnone : ∀ v : Variable, ¬v.text <+: c :: (more ++ rest) := fun v hv => by
      have hend := h 0 (by simp) v hv
      exact none v (List.prefix_of_prefix_length_le hv (List.prefix_append (c :: more) rest)
        (by simpa using hend))
    have hmore := ih fun i hi w hw => by
      have hend := h (i + 1) (by simpa using hi) w hw
      rw [List.length_cons] at hend
      omega
    rw [List.cons_append, variableNames_cons hnone, variableNames_cons none, hmore]

theorem exists_variable_of_mem_variableNames {template name : List Char}
    (h : name ∈ variableNames template) : ∃ v : Variable, v.name = name := by
  induction template using reading_induction with
  | nil => exact absurd h List.not_mem_nil
  | found v rest ih =>
    rw [variableNames_variable_append] at h
    obtain rfl | h := List.mem_cons.mp h
    · exact ⟨v, rfl⟩
    · exact ih h
  | skipped c rest none ih =>
    rw [variableNames_cons none] at h
    exact ih h

/-- The names that are read are such as a variable can have. -/
theorem plain_of_mem_namesIn {template name : String} (h : name ∈ namesIn template) :
    name ≠ "" ∧ ∀ c ∈ name.toList, c ≠ '}' ∧ c ≠ '=' ∧ ¬Text.isBlank c := by
  obtain ⟨chars, hchars, rfl⟩ := List.mem_map.mp h
  obtain ⟨v, rfl⟩ := exists_variable_of_mem_variableNames hchars
  refine ⟨fun hnil => v.name_ne_nil ?_, fun c hc => v.name_plain c (by simpa using hc)⟩
  simpa using congrArg String.toList hnil

theorem not_isBlank_of_mem_namesIn {template name : String} (h : name ∈ namesIn template) :
    ∀ c ∈ name.toList, ¬Text.isBlank c :=
  fun c hc => ((plain_of_mem_namesIn h).2 c hc).2.2

end HttpTranscoding.PathTemplate
