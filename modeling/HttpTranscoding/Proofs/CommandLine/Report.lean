import HttpTranscoding.CommandLine.Response
import HttpTranscoding.Proofs.Validator.Methods

/-!
# The report of a validation

The command line goes past methods that fail and reports their failures before all
diagnostics, while a validation of the schema ends at the first failure. Both are told by
what becomes of each method alone (`Validator.failures`, `Validator.findings`), so they
agree as far as the second one goes.

* `validate_eq`: the status and the lines of a validation;
* `respond_agrees`: the response to arguments that give a schema and options, and how it
  compares with a validation of the schema.
-/

namespace HttpTranscoding.CommandLine

variable {v : Validator}

/-- The lines that are logged whether the log is verbose or not. -/
def reportLines (v : Validator) : List String :=
  (v.failures v.schema.methods).map failureLine ++ (v.findings v.schema.methods).map (·.text)

/-- What the status says: 2 if methods failed, or else 1 if anything was found. -/
def verdict (v : Validator) : Nat :=
  if v.failures v.schema.methods ≠ [] then 2
  else if v.findings v.schema.methods ≠ [] then 1
  else 0

theorem empty_append (found : List Diagnostic) : Reporter.empty.append found = ⟨found⟩ :=
  rfl

theorem exitStatus_eq_verdict (v : Validator) :
    exitStatus (v.failures v.schema.methods) ⟨v.findings v.schema.methods⟩ = verdict v := by
  unfold exitStatus verdict
  rw [Validator.exitCode_findings]
  cases v.failures v.schema.methods <;> simp

theorem validate_eq (v : Validator) (verbose : Bool) :
    validate v verbose = (verdict v,
      (if verbose then preface v.schema else []) ++ reportLines v ++
        if verbose then summary (v.failures v.schema.methods) ⟨v.findings v.schema.methods⟩
        else []) := by
  unfold validate
  rw [Validator.runAll_run, empty_append]
  simp only [exitStatus_eq_verdict, reportLines, List.append_assoc]

/-- The response shows a validation with the options and the schema that the arguments give. -/
theorem respond_of_load {machine : Machine} {texts : List String} {a : Arguments} {log : String}
    (hargs : Arguments.ofTexts texts = .ok a) (hinput : a.protos ≠ [] ∨ a.declarations? ≠ none)
    (hoptions : options machine a = .ok v.options)
    (hload : load machine a = .ok (log, .ok v.schema)) :
    respond machine texts =
      .ok ⟨(validate v a.verbose).1, "", log ++ lines (validate v a.verbose).2⟩ := by
  have hgiven : ¬(a.protos.isEmpty && a.declarations?.isNone) := by
    simpa [or_iff_not_imp_left] using hinput
  unfold respond
  rw [hargs]
  simp only [answer, hgiven]
  rw [hoptions, hload]
  rfl

/-- The response to arguments that give a schema and options. It has a line for each method that
fails and, after these, the diagnostics that the other methods yield when each is checked alone,
both in the order of the methods. If no method fails, a validation of the schema finds these
diagnostics and has this status for its exit code; otherwise it fails as the first method does
that fails, and has recorded the diagnostics of the methods before. -/
theorem respond_agrees {machine : Machine} {texts : List String} {a : Arguments} {log : String}
    (hargs : Arguments.ofTexts texts = .ok a) (hinput : a.protos ≠ [] ∨ a.declarations? ≠ none)
    (hoptions : options machine a = .ok v.options)
    (hload : load machine a = .ok (log, .ok v.schema)) :
    respond machine texts = .ok ⟨verdict v, "", log ++ lines
      ((if a.verbose then preface v.schema else []) ++ reportLines v ++
        if a.verbose then summary (v.failures v.schema.methods) ⟨v.findings v.schema.methods⟩
        else [])⟩ ∧
    (v.failures v.schema.methods = [] → ∃ r, v.validateModel.run Reporter.empty = (.ok (), r) ∧
      r.diagnostics = v.findings v.schema.methods ∧ r.exitCode = verdict v) ∧
    (∀ failed others, v.failures v.schema.methods = failed :: others →
      ∃ before after, v.schema.methods = before ++ failed.1 :: after ∧ v.failures before = [] ∧
        v.validateModel.run Reporter.empty = (.error failed.2, ⟨v.findings before⟩)) := by
  refine ⟨?_, fun hnone => ?_, fun failed others hfailures => ?_⟩
  · rw [respond_of_load hargs hinput hoptions hload, validate_eq]
  · refine ⟨_, Validator.validateMethods_of_failures_nil hnone Reporter.empty, rfl, ?_⟩
    rw [← exitStatus_eq_verdict, hnone]
    rfl
  · obtain ⟨before, after, hsplit, hbefore, he⟩ :=
      Validator.exists_append_of_failures_cons hfailures
    have hrun : (v.validateMethods (before ++ failed.1 :: after)).run Reporter.empty =
        (.error failed.2, ⟨v.findings before⟩) :=
      Validator.validateMethods_of_error hbefore he Reporter.empty
    rw [← hsplit] at hrun
    exact ⟨before, after, hsplit, hbefore, hrun⟩

/-! ## A report of a failure and a diagnostic -/

/-- Two methods: one sends a page of notes in the query, the other names a field that notes
do not have. -/
def noteFile : FileDecl where
  name := "notes.proto"
  package := "v1"
  messages := [
    ⟨"Note", false, [⟨"name", 1, .string, false, ""⟩], []⟩,
    ⟨"Page", false, [⟨"notes", 1, .message, true, ".v1.Note"⟩], []⟩]
  services := [⟨"Notes", [
    ⟨"ListNotes", ".v1.Page", ".v1.Page", some ⟨some (.standard .get "/v1/notes"), "", "", []⟩⟩,
    ⟨"GetNote", ".v1.Note", ".v1.Note", some ⟨some (.standard .get "/v1/{title}"), "", "", []⟩⟩]⟩]
  spans := []

def noteMachine : Machine where
  environment := fun _ => none
  directory := .root
  declarations := fun _ => .ok [noteFile]
  workspace := "/tmp/pbhttp"
  compiler := ⟨"/usr/include", none⟩
  compile := fun _ => .notStarted

def noteArguments : Arguments :=
  ⟨[], [], some "notes.pb", none, [], false⟩

def noteSchema : Schema where
  messages := [
    ⟨"v1.Note", "notes.proto", false, [⟨"v1.Note", 0, "name", 1, ⟨.string, false, none⟩⟩]⟩,
    ⟨"v1.Page", "notes.proto", false,
      [⟨"v1.Page", 0, "notes", 1, ⟨.message, true, some ⟨"v1.Note", false⟩⟩⟩]⟩]
  methods := [
    ⟨"v1.Notes.ListNotes", ⟨"v1.Page", false⟩, ⟨"v1.Page", false⟩,
      some ⟨some (.standard .get "/v1/notes"), "", "", []⟩,
      .ofElement "notes.proto" "v1.Notes.ListNotes"⟩,
    ⟨"v1.Notes.GetNote", ⟨"v1.Note", false⟩, ⟨"v1.Note", false⟩,
      some ⟨some (.standard .get "/v1/{title}"), "", "", []⟩,
      .ofElement "notes.proto" "v1.Notes.GetNote"⟩]
  targets := ["notes.proto"]

def noteValidator : Validator :=
  ⟨noteSchema, .default⟩

def noteLines : List String := [
  "notes.proto: v1.Notes.GetNote: error: " ++
    "No field 'title' in message 'v1.Note' (path 'title')",
  "notes.proto: v1.Notes.ListNotes: error: " ++
    "repeated message field 'v1.Page.notes' referred to by message 'v1.Page' " ++
    "cannot be mapped as an HTTP parameter."]

/-- The second method fails, which is reported before what is wrong with the first. -/
theorem respond_notes :
    Arguments.ofTexts ["--descriptor-set", "notes.pb"] = .ok noteArguments ∧
      options noteMachine noteArguments = .ok noteValidator.options ∧
      load noteMachine noteArguments = .ok ("", .ok noteValidator.schema) ∧
      respond noteMachine ["--descriptor-set", "notes.pb"] = .ok ⟨2, "", lines noteLines⟩ := by
  have hargs : Arguments.ofTexts ["--descriptor-set", "notes.pb"] = .ok noteArguments := by
    decide +kernel
  have hinput : noteArguments.protos ≠ [] ∨ noteArguments.declarations? ≠ none := by decide
  have hoptions : options noteMachine noteArguments = .ok noteValidator.options := rfl
  have hload : load noteMachine noteArguments = .ok ("", .ok noteValidator.schema) := rfl
  have hverdict : verdict noteValidator = 2 := by decide +kernel
  have hlines : reportLines noteValidator = noteLines := by decide +kernel
  refine ⟨hargs, hoptions, hload, ?_⟩
  have hrespond := (respond_agrees hargs hinput hoptions hload).1
  rw [hverdict, hlines] at hrespond
  simpa [noteArguments] using hrespond

end HttpTranscoding.CommandLine
