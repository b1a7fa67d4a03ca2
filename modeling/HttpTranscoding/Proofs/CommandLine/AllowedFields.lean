import HttpTranscoding.Proofs.CommandLine.Flags
import HttpTranscoding.Proofs.CommandLine.Report
import HttpTranscoding.Proofs.Options

/-!
# Allowed fields in responses

A response looks at the names of allowed fields only through the options, and the options are the
union of what the environment and the arguments name. So it makes no difference to the response
which of the two gives a name, as long as both can: a list between commas changes names that have
commas or blanks at their ends, and the arguments cannot give the name `--`.

* `answer_allowing`: equal options give equal answers;
* `respond_flags`: the same of responses to flags in front of other arguments;
* `allowed_from_any_source`: the options as a union, and responses to names that are divided
  between the environment and the command line;
* `not_forall_respond_divided`: the name `--` divides them.
-/

namespace HttpTranscoding.CommandLine

theorem given_append (s : Switch) (names : List String) (values : List (Option String)) :
    given s (names.map some ++ values) = (given s values).map (names ++ ·) := by
  have hnames : given s (names.map some) = .ok names := by
    rw [given, mapM_eq_ok_iff, List.forall₂_map_left_iff]
    exact List.forall₂_same.mpr fun name _ => rfl
  unfold given at hnames ⊢
  rw [List.mapM_append, hnames]
  rfl

section Answer

variable {lookup lookup' : String → Option String} {flags flags' : List String}

theorem options_allowing (h : (Options.ofEnvironment lookup).allow flags =
      (Options.ofEnvironment lookup').allow flags') (machine : Machine) (a : Arguments) :
    options { machine with environment := lookup } (a.allowing flags) =
      options { machine with environment := lookup' } (a.allowing flags') := by
  simp only [options, Arguments.allowing, given_append]
  cases given .allowRepeated a.allowed with
  | error e => rfl
  | ok rest => exact congrArg Except.ok (Options.allow_append_congr h rest)

/-- Where names of allowed fields come from does not show in the answer. -/
theorem answer_allowing (h : (Options.ofEnvironment lookup).allow flags =
      (Options.ofEnvironment lookup').allow flags') (machine : Machine) (a : Arguments) :
    answer { machine with environment := lookup } (a.allowing flags) =
      answer { machine with environment := lookup' } (a.allowing flags') := by
  have hload : load { machine with environment := lookup } (a.allowing flags) =
      load { machine with environment := lookup' } (a.allowing flags') := rfl
  unfold answer
  rw [options_allowing h, hload]
  rfl

theorem respond_eq_answer {machine : Machine} {texts : List String} {a : Arguments}
    (h : Arguments.ofTexts texts = .ok a) : respond machine texts = answer machine a := by
  rw [respond, h]

/-- Flags that give equal options do so in front of any texts, whether these can be read or not. -/
theorem respond_flags (h : (Options.ofEnvironment lookup).allow flags =
      (Options.ofEnvironment lookup').allow flags') {written written' : List (List String)}
    (hwritten : List.Forall₂ WritesFlag written flags)
    (hwritten' : List.Forall₂ WritesFlag written' flags') (machine : Machine)
    (texts : List String) :
    respond { machine with environment := lookup } (written.flatten ++ texts) =
      respond { machine with environment := lookup' } (written'.flatten ++ texts) := by
  unfold respond
  rw [Arguments.ofTexts_flags hwritten, Arguments.ofTexts_flags hwritten']
  cases Arguments.ofTexts texts with
  | error interruption => cases interruption <;> rfl
  | ok a => exact answer_allowing h machine a

end Answer

/-- The options allow the names that are built in, those that the environment lists, and those of
all lists that are added, in whatever order and however often.

So let names without commas and blanks at their ends be divided between the environment and the
command line. The options then allow just these besides what is built in, and the response is the
same for each division: to all arguments that are read as the flags and as something that is the
same for both, and to flags that are written in front of any texts in a way that can be read. This
is so unless a flag is for `--`, which is a name that no arguments can give. -/
theorem allowed_from_any_source :
    (∀ (lookup : String → Option String) (lists : List (List String)) n,
      n ∈ (lists.foldl Options.allow (.ofEnvironment lookup)).allowed ↔
      n ∈ Options.builtIn ∨
      (n ≠ "" ∧ ∃ piece ∈ ((lookup Options.variableName).getD "").toList.splitOn ',',
        n = String.ofList (Text.strip piece)) ∨
      ∃ names ∈ lists, n ∈ names) ∧
    (∀ (lookup lookup' : String → Option String) (lists lists' : List (List String)),
      (∀ n, n ∈ Options.listed ((lookup Options.variableName).getD "") ++ lists.flatten ↔
        n ∈ Options.listed ((lookup' Options.variableName).getD "") ++ lists'.flatten) →
      lists.foldl Options.allow (.ofEnvironment lookup) =
        lists'.foldl Options.allow (.ofEnvironment lookup')) ∧
    (∀ names : List String, (∀ n ∈ names, Options.Listable n) →
      ∀ lookup flags, Options.Divided lookup flags names →
        (Options.ofEnvironment lookup).allow flags = Options.default.allow names ∧
        ∀ lookup' flags', Options.Divided lookup' flags' names → ∀ machine : Machine,
          (∀ texts texts' (a : Arguments), Arguments.ofTexts texts = .ok (a.allowing flags) →
            Arguments.ofTexts texts' = .ok (a.allowing flags') →
            respond { machine with environment := lookup } texts =
              respond { machine with environment := lookup' } texts') ∧
          (∀ written written', List.Forall₂ WritesFlag written flags →
            List.Forall₂ WritesFlag written' flags' → ∀ texts,
            respond { machine with environment := lookup } (written.flatten ++ texts) =
              respond { machine with environment := lookup' } (written'.flatten ++ texts))) ∧
    (∀ texts a, Arguments.ofTexts texts = .ok a → some "--" ∉ a.allowed) := by
  refine ⟨fun lookup lists n => ?_, fun lookup lookup' lists lists' h => ?_,
    fun names hnames lookup flags hdivided => ⟨?_, fun lookup' flags' hdivided' machine => ?_⟩,
    fun texts a => Arguments.not_mem_allowed⟩
  · rw [Options.mem_foldl_allow_ofEnvironment, Options.mem_listed]
  · exact Options.foldl_allow_ofEnvironment_congr h
  · exact Options.allow_ofEnvironment_of_divided hdivided hnames
  · have hoptions : (Options.ofEnvironment lookup).allow flags =
        (Options.ofEnvironment lookup').allow flags' := by
      rw [Options.allow_ofEnvironment_of_divided hdivided hnames,
        Options.allow_ofEnvironment_of_divided hdivided' hnames]
    refine ⟨fun texts texts' a htexts htexts' => ?_, fun written written' hflags hflags' => ?_⟩
    · rw [respond_eq_answer htexts, respond_eq_answer htexts']
      exact answer_allowing hoptions machine a
    · exact respond_flags hoptions hflags hflags' machine

/-! ## Notes that are allowed, and two dashes -/

theorem divided_flag (name : String) : Options.Divided (fun _ => none) [name] [name] :=
  ⟨[], ⟨[], [], rfl, .nil, rfl⟩, by simp⟩

/-- The notes are allowed by the environment as they are by a flag, so that only the method that
fails is reported. -/
theorem respond_notes_allowed :
    (∀ n ∈ ["v1.Page.notes"], Options.Listable n) ∧
      Options.Divided (fun _ => some " ,v1.Page.notes ") [] ["v1.Page.notes"] ∧
      respond { noteMachine with environment := fun _ => some " ,v1.Page.notes " }
          ["--descriptor-set", "notes.pb"] =
        .ok ⟨2, "", lines (noteLines.take 1)⟩ := by
  have hnames : ∀ n ∈ ["v1.Page.notes"], Options.Listable n := by
    rw [List.forall_mem_singleton]
    exact ⟨by decide, by decide, by decide, by decide⟩
  have hvariable : Options.Divided (fun _ => some " ,v1.Page.notes ") [] ["v1.Page.notes"] := by
    refine ⟨["v1.Page.notes"], ⟨[" ", "v1.Page.notes "], ["", "v1.Page.notes"], by decide,
      .cons ⟨" ", "", by decide, by decide, by decide⟩
        (.cons ⟨"", " ", by decide, by decide, by decide⟩ .nil), by decide⟩, by simp⟩
  have hwritten : List.Forall₂ WritesFlag [["--allow-repeated-field", "v1.Page.notes"]]
      ["v1.Page.notes"] := .cons ⟨by decide, by decide, by decide⟩ .nil
  have hflag : respond noteMachine
      ["--allow-repeated-field", "v1.Page.notes", "--descriptor-set", "notes.pb"] =
        .ok ⟨2, "", lines (noteLines.take 1)⟩ := by decide +kernel
  refine ⟨hnames, hvariable, ?_⟩
  rw [← hflag]
  exact ((allowed_from_any_source.2.2.1 _ hnames _ _ hvariable).2 _ _ (divided_flag _)
    noteMachine).2 [] _ .nil hwritten _

/-- The environment can list two dashes, but however a flag for them is written, it has no value. -/
theorem not_forall_respond_divided :
    ¬∀ names : List String, (∀ n ∈ names, Options.Listable n) →
      ∀ lookup flags lookup' flags', Options.Divided lookup flags names →
        Options.Divided lookup' flags' names → ∀ (machine : Machine) texts, ∃ written written',
          List.Forall₂ (· ∈ flagForms ·) written flags ∧
          List.Forall₂ (· ∈ flagForms ·) written' flags' ∧
          respond { machine with environment := lookup } (written.flatten ++ texts) =
            respond { machine with environment := lookup' } (written'.flatten ++ texts) := by
  intro h
  have hnames : ∀ n ∈ ["--"], Options.Listable n := by
    rw [List.forall_mem_singleton]
    exact ⟨by decide, by decide, by decide, by decide⟩
  have hvariable : Options.Divided (fun _ => some "--") [] ["--"] :=
    ⟨["--"], ⟨["--"], ["--"], by decide, .cons ⟨"", "", by decide, by decide, by decide⟩ .nil,
      by decide⟩, by simp⟩
  obtain ⟨written, written', hwritten, hwritten', hsame⟩ := h ["--"] hnames _ _ _ _
    (divided_flag _) hvariable noteMachine ["--descriptor-set", "notes.pb"]
  obtain rfl := List.forall₂_nil_right_iff.mp hwritten'
  obtain ⟨form, rest, hform, hrest, rfl⟩ := List.forall₂_cons_right_iff.mp hwritten
  obtain rfl := List.forall₂_nil_right_iff.mp hrest
  have hlisted : respond { noteMachine with environment := fun _ => some "--" }
      ["--descriptor-set", "notes.pb"] = .ok ⟨2, "", lines noteLines⟩ := by decide +kernel
  have hattached : respond noteMachine [flag "--", "--descriptor-set", "notes.pb"] =
      .error ⟨.allowRepeated⟩ := by decide +kernel
  have hseparate : respond noteMachine
      ["--allow-repeated-field", "--", "--descriptor-set", "notes.pb"] =
        .ok ⟨2, "", (UsageError.missingValue .allowRepeated).report⟩ := by decide +kernel
  have hlog : (UsageError.missingValue .allowRepeated).report ≠ lines noteLines := by
    decide +kernel
  have hresponse : respond noteMachine (form ++ ["--descriptor-set", "notes.pb"]) =
      .ok ⟨2, "", lines noteLines⟩ := by
    rw [List.flatten_singleton] at hsame
    exact hsame.trans hlisted
  simp only [flagForms, List.mem_cons, List.not_mem_nil, or_false] at hform
  obtain rfl | rfl := hform
  · exact absurd (hattached.symm.trans hresponse) (by simp)
  · refine hlog ?_
    simpa using hseparate.symm.trans hresponse

end HttpTranscoding.CommandLine
