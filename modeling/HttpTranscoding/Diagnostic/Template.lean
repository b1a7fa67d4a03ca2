/-!
# Message templates

A message template is a text in which `%s` stands for the next argument and
`%%` for a percent sign. `fill` reads the directives from left to right and
stops at the first that it cannot serve; arguments left over count only once
the whole template has been read. What an argument puts in is not read again,
so it depends on the template and the number of arguments alone whether a
message comes about (`exists_fill_eq_ok`).
-/

namespace HttpTranscoding.Template

/-- A value that a template can show. -/
inductive Argument
  | text (value : String)
  | integer (value : Int)
  | flag (value : Bool)
  | absent

def Argument.shown : Argument → String
  | text value => value
  | integer value => toString value
  | flag true => "True"
  | flag false => "False"
  | absent => "None"

/-- Why a template and its arguments do not fit each other. -/
inductive FillError
  | tooFewArguments
  | tooManyArguments
  | openDirective
  | unknownDirective (letter : Char)
deriving DecidableEq

def FillError.message : FillError → String
  | tooFewArguments => "not enough arguments for format string"
  | tooManyArguments => "not all arguments converted during string formatting"
  | openDirective => "incomplete format"
  | unknownDirective letter => "unsupported format character '" ++ letter.toString ++ "'"

/-- The template with its directives replaced, in order, by the arguments. -/
def fill : List Char → List (List Char) → Except FillError (List Char)
  | [], [] => .ok []
  | [], _ :: _ => .error .tooManyArguments
  | ['%'], _ => .error .openDirective
  | '%' :: '%' :: rest, args => (fill rest args).map ('%' :: ·)
  | '%' :: 's' :: _, [] => .error .tooFewArguments
  | '%' :: 's' :: rest, arg :: args => (fill rest args).map (arg ++ ·)
  | c :: rest, args =>
    if c = '%' then .error (.unknownDirective (rest.headD c))
    else (fill rest args).map (c :: ·)

/-- How many arguments a template takes, if all its directives are known and complete. -/
def demand : List Char → Option Nat
  | [] => some 0
  | ['%'] => none
  | '%' :: '%' :: rest => demand rest
  | '%' :: 's' :: rest => (demand rest).map (· + 1)
  | '%' :: _ => none
  | _ :: rest => demand rest

/-- A template is filled by as many arguments as it takes, whatever they hold. -/
theorem exists_fill_eq_ok {template : List Char} {args : List (List Char)}
    (h : demand template = some args.length) : ∃ text, fill template args = .ok text := by
  fun_induction fill template args with
  | case1 => exact ⟨[], rfl⟩
  | case2 => simp [demand] at h
  | case3 => simp [demand] at h
  | case4 args rest ih =>
    obtain ⟨text, ht⟩ := ih (by simpa [demand] using h)
    exact ⟨'%' :: text, by rw [ht]; rfl⟩
  | case5 => simp [demand] at h
  | case6 rest arg args ih =>
    obtain ⟨text, ht⟩ := ih (by simpa [demand] using h)
    exact ⟨arg ++ text, by rw [ht]; rfl⟩
  | case7 rest args _ _ _ _ =>
    unfold demand at h
    cases args <;> grind
  | case8 c rest args _ _ _ _ hc ih =>
    obtain ⟨text, ht⟩ := ih (by unfold demand at h; grind)
    exact ⟨c :: text, by rw [ht]; rfl⟩

/-- The message of a template: without arguments the template itself, directives and all. -/
def instantiate (template : String) (args : List Argument) : Except FillError String :=
  if args.isEmpty then .ok template
  else (fill template.toList (args.map (·.shown.toList))).map String.ofList

theorem exists_instantiate_eq_ok {template : String} {args : List Argument}
    (h : demand template.toList = some args.length) :
    ∃ text, instantiate template args = .ok text := by
  unfold instantiate
  split
  · exact ⟨template, rfl⟩
  · have hd : demand template.toList = some (args.map (·.shown.toList)).length := by simpa using h
    obtain ⟨text, ht⟩ := exists_fill_eq_ok hd
    exact ⟨String.ofList text, by rw [ht]; rfl⟩

end HttpTranscoding.Template
