import HttpTranscoding.Proofs.Diagnostic.Formatting
import HttpTranscoding.Proofs.FieldPath.Composition
import HttpTranscoding.Proofs.Validator.Verbs

/-!
# What is reported of request bodies

Whether a body is a field of the request is decided by the text that names it, and whether it
renders as an object by the field that the text leads to. Both tell of one field path with as
many fields as the text has elements, so each binding has one report of its body or none.

* `Violation.message_nestedBody`, `Violation.message_bodyType`: the texts of the reports;
* `Check.body_of_named`: the check of a body that is named;
* `Validator.bodyReports_block`: what all checks of a binding report of its body;
* `Validator.bodies_reported`: the reports of a run, read off the rules.
-/

namespace HttpTranscoding

/-! ## The text of a report -/

theorem Violation.message_nestedBody (method : Method) (path : String) :
    (nestedBody path).message method =
      "body field path '" ++ path ++ "' should not reference sub messages." := by
  have hmessage := (nestedBody path).message_of_parts method "body field path '"
    [(.text path, "' should not reference sub messages.")] rfl rfl (by simp) (by decide +kernel)
    (by simp)
  simpa [String.join, String.append_assoc, Template.Argument.shown] using hmessage

theorem Violation.message_bodyType (method : Method) (p : FieldPath) :
    (bodyType p).message method =
      "body field path '" ++ p.text ++ "' must be a non-repeated message." := by
  have hmessage := (bodyType p).message_of_parts method "body field path '"
    [(.text p.text, "' must be a non-repeated message.")] rfl rfl (by simp) (by decide +kernel)
    (by simp)
  simpa [String.join, String.append_assoc, Template.Argument.shown] using hmessage

/-- What is reported of a rule of the method whose body lies inside a field. -/
def nestedBodyReport (method : Method) (body : String) : Diagnostic where
  kind := .bodyMustBeTopLevelField
  severity := .error
  location := method.location
  message := "body field path '" ++ body ++ "' should not reference sub messages."

/-- What is reported of a rule of the method whose body does not render as an object. -/
def bodyTypeReport (method : Method) (selector : String) : Diagnostic where
  kind := .bodyMustBeNonRepeatedAllowedMessage
  severity := .error
  location := method.location
  message := "body field path '" ++ selector ++ "' must be a non-repeated message."

theorem diagnostic_nestedBody (method : Method) (path : String) :
    (Violation.nestedBody path).diagnostic method = nestedBodyReport method path := by
  rw [Violation.diagnostic, Violation.message_nestedBody]
  rfl

theorem diagnostic_bodyType (method : Method) (p : FieldPath) :
    (Violation.bodyType p).diagnostic method = bodyTypeReport method p.text := by
  rw [Violation.diagnostic, Violation.message_bodyType]
  rfl

/-! ## Bodies that are named -/

theorem RequestBody.declared_of_named {text : String} (hne : text ≠ "") (hall : text ≠ "*") :
    declared text = .field text := by
  rw [declared, if_neg hne, named, if_neg hall]

section Named

variable {s : Schema} {request : MessageRef} {rule : HttpRule} {b : Binding}

/-- A body that is named is one path, with a field for each element of the name. -/
theorem Binding.exists_bodyFields (h : resolve s request rule = .ok b) (hne : rule.body ≠ "")
    (hall : rule.body ≠ "*") : ∃ p, FieldPath.resolve s request rule.body = .ok p ∧
      b.bodyFields = [p] ∧ p.fields.length = (FieldPath.elements rule.body).length := by
  obtain ⟨-, -, -, -, hbody, -⟩ := resolve_eq_ok_iff.mp h
  rw [RequestBody.declared_of_named hne hall] at hbody
  obtain ⟨p, hp, hfields⟩ := bodyFields_of_named h hbody
  refine ⟨p, hp, hfields, ?_⟩
  rw [FieldPath.length_fields_of_resolve hp, FieldPath.length_elements]

namespace Check

theorem fitsBody_iff {t : TypeRef} : fitsBody t ↔
    ∃ m, t.target = some m ∧ ¬t.repeated ∧ m.wellKnown.rendersAsObject := by
  unfold fitsBody TypeRef.isMessage TypeRef.wellKnown
  cases t.target <;> simp

theorem body_of_verb_none (h : Binding.resolve s request rule = .ok b)
    (hverb : rule.verb? = none) : body b = [] := by
  obtain ⟨-, -, hkept, -⟩ := Binding.resolve_eq_ok_iff.mp h
  simp only [body, hkept, hverb]

theorem body_of_not_named (h : Binding.resolve s request rule = .ok b)
    (hbody : rule.body = "" ∨ rule.body = "*") : body b = [] := by
  obtain ⟨-, -, -, -, hdeclared, -⟩ := Binding.resolve_eq_ok_iff.mp h
  unfold body
  obtain hempty | hall := hbody
  · rw [hdeclared, hempty]
    cases b.verb? <;> rfl
  · rw [hdeclared, hall]
    cases b.verb? <;> rfl

/-- The text of a name decides whether the type of the field is looked at. -/
theorem body_of_named (h : Binding.resolve s request rule = .ok b) (hverb : rule.verb? ≠ none)
    (hne : rule.body ≠ "") (hall : rule.body ≠ "*") {p : FieldPath} (hp : b.bodyFields = [p]) :
    body b = if 2 ≤ (FieldPath.elements rule.body).length then [.nestedBody rule.body]
      else if fitsBody p.type then [] else [.bodyType p] := by
  obtain ⟨-, -, hkept, -, hbody, -⟩ := Binding.resolve_eq_ok_iff.mp h
  rw [RequestBody.declared_of_named hne hall] at hbody
  obtain ⟨verb, hsome⟩ := Option.ne_none_iff_exists'.mp hverb
  have hsingle : FieldPath.isSingleElement rule.body ↔
      ¬2 ≤ (FieldPath.elements rule.body).length := by
    rw [FieldPath.isSingleElement, decide_eq_true_eq, FieldPath.length_elements,
      ← List.count_eq_zero]
    omega
  simp only [body, hkept, hsome, hbody, hp]
  by_cases hnested : 2 ≤ (FieldPath.elements rule.body).length
  · have hseveral : ¬FieldPath.isSingleElement rule.body := mt hsingle.mp (not_not_intro hnested)
    simp [hnested, hseveral]
  · simp [hnested, hsingle.mpr hnested]

theorem length_body_le (b : Binding) : (body b).length ≤ 1 := by
  unfold body
  grind

end Check

end Named

/-! ## Reports of bodies among others -/

/-- Whether diagnostics of the kind are about the body of a request. -/
def DiagnosticKind.concernsRequestBody : DiagnosticKind → Bool
  | bodyMustBeTopLevelField | bodyMustBeNonRepeatedAllowedMessage => true
  | mapNotAllowedAsParam | repeatedMessageNotAllowedAsParam | cyclicParamReference
  | mapOrRepeatedOrDisallowedMessageOnPath | overlappingPathSelectors | responseNotJsonRenderable
  | additionalBindingHasNestedBindings | additionalBindingHasSelector => false

theorem DiagnosticKind.concernsBodies_of_concernsRequestBody {k : DiagnosticKind}
    (h : k.concernsRequestBody) : k.concernsBodies := by
  cases k <;> simp_all [concernsRequestBody, concernsBodies]

theorem Check.concernsRequestBody_of_mem_body {b : Binding} {x : Violation} (h : x ∈ body b) :
    x.kind.concernsRequestBody := by
  unfold body at h
  grind [Violation.kind, DiagnosticKind.concernsRequestBody]

theorem Check.not_concernsRequestBody_of_mem_response {method : Method} {verb? : Option Verb}
    {x : Violation} (h : x ∈ response method verb?) : ¬x.kind.concernsRequestBody := by
  unfold response at h
  grind [Violation.kind, DiagnosticKind.concernsRequestBody]

/-- The diagnostics that are about the body of a request. -/
def bodyReports (found : List Diagnostic) : List Diagnostic :=
  found.filter (·.kind.concernsRequestBody)

namespace Validator

variable {v : Validator} {method : Method} {rule : HttpRule} {b : Binding}

/-- What all checks of a binding report of its body is what the check of the body finds. -/
theorem bodyReports_block (v : Validator) (method : Method) (b : Binding) :
    bodyReports (v.block method b) = (Check.body b).map (·.diagnostic method) := by
  have hnone {found : List Violation} (h : ∀ x ∈ found, ¬x.kind.concernsRequestBody) :
      found.filter (·.kind.concernsRequestBody) = [] := List.filter_eq_nil_iff.mpr h
  have hother {found : List Violation} (h : ∀ x ∈ found, ¬x.kind.concernsBodies) :
      found.filter (·.kind.concernsRequestBody) = [] :=
    hnone fun x hx hkind => h x hx (DiagnosticKind.concernsBodies_of_concernsRequestBody hkind)
  have hbody : (Check.body b).filter (·.kind.concernsRequestBody) = Check.body b :=
    List.filter_eq_self.mpr fun x hx => Check.concernsRequestBody_of_mem_body hx
  have hchecks : (Check.binding v.schema v.options method b).filter
      (·.kind.concernsRequestBody) = Check.body b := by
    simp only [Check.binding, List.filter_append, hbody,
      hnone fun x hx => Check.not_concernsRequestBody_of_mem_response hx,
      hother fun x hx => Check.not_concernsBodies_of_mem_overlaps hx,
      hother fun x hx => Check.not_concernsBodies_of_mem_parameters hx,
      hother fun x hx => Check.not_concernsBodies_of_mem_segments hx, List.append_nil]
  rw [bodyReports, block, List.filter_map]
  exact congrArg _ hchecks

/-- Of a run on bindings, the reports of bodies are those of each binding by itself. -/
theorem bodyReports_bindings (v : Validator) (method : Method) (b : MethodBinding) :
    bodyReports ((Check.bindings v.schema v.options method b).map (·.diagnostic method)) =
      (b.primary :: b.additional).flatMap fun a => bodyReports (v.block method a) := by
  have hexcess (a : Binding) :
      bodyReports ((Check.additionalRule a).map (·.diagnostic method)) = [] := by
    refine List.filter_eq_nil_iff.mpr fun d hd => ?_
    obtain ⟨x, hx, rfl⟩ := List.mem_map.mp hd
    unfold Check.additionalRule at hx
    grind [Violation.kind, Violation.diagnostic, DiagnosticKind.concernsRequestBody]
  have happend (found more : List Diagnostic) :
      bodyReports (found ++ more) = bodyReports found ++ bodyReports more := List.filter_append ..
  rw [map_diagnostic_bindings, happend, List.flatMap_cons, ← List.flatMap_def]
  refine congrArg (bodyReports (v.block method b.primary) ++ ·) ?_
  refine (List.filter_flatMap ..).trans (List.flatMap_congr fun a _ => ?_)
  exact (happend _ _).trans (by rw [hexcess, List.nil_append])

/-- What there is to know of the body of a rule that a binding is that of, and of the reports
of it. -/
structure BodyReported (v : Validator) (method : Method) (rule : HttpRule) (b : Binding)
    (reports : List Diagnostic) : Prop where
  verb_none : rule.verb? = none → reports = []
  not_named : rule.body = "" ∨ rule.body = "*" → reports = []
  /-- A body that is named is one field path, with a field for each element of the name. -/
  named : rule.body ≠ "" → rule.body ≠ "*" →
    ∃ p, FieldPath.resolve v.schema method.input rule.body = .ok p ∧ b.bodyFields = [p] ∧
      p.fields.length = (FieldPath.elements rule.body).length ∧
      (rule.verb? ≠ none →
        (2 ≤ (FieldPath.elements rule.body).length →
          reports = [nestedBodyReport method rule.body]) ∧
        ((FieldPath.elements rule.body).length = 1 →
          (p.type.target = none ∨ p.type.repeated ∨
              (∃ m, p.type.target = some m ∧ ¬m.wellKnown.rendersAsObject) →
            reports = [bodyTypeReport method p.text]) ∧
          (∀ m, p.type.target = some m → ¬p.type.repeated → m.wellKnown.rendersAsObject →
            reports = [])))
  length_le : reports.length ≤ 1

theorem bodyReported_of_resolve (h : Binding.resolve v.schema method.input rule = .ok b) :
    BodyReported v method rule b (bodyReports (v.block method b)) := by
  rw [bodyReports_block]
  refine ⟨fun hverb => ?_, fun hbody => ?_, fun hne hall => ?_, ?_⟩
  · rw [Check.body_of_verb_none h hverb, List.map_nil]
  · rw [Check.body_of_not_named h hbody, List.map_nil]
  · obtain ⟨p, hp, hfields, hlength⟩ := Binding.exists_bodyFields h hne hall
    refine ⟨p, hp, hfields, hlength, fun hverb => ?_⟩
    rw [Check.body_of_named h hverb hne hall hfields]
    refine ⟨fun hnested => ?_, fun hsingle => ?_⟩
    · rw [if_pos hnested, List.map_singleton, diagnostic_nestedBody]
    rw [if_neg (by omega)]
    refine ⟨fun hunfit => ?_, fun m hm hrepeated hobject => ?_⟩
    · have hfits : ¬Check.fitsBody p.type := by
        rw [Check.fitsBody_iff]
        rintro ⟨m, hm, hrepeated, hobject⟩
        obtain hscalar | hrepeated' | ⟨m', hm', hobject'⟩ := hunfit
        · simp [hm] at hscalar
        · exact hrepeated hrepeated'
        · obtain rfl := Option.some.inj (hm.symm.trans hm')
          exact hobject' hobject
      rw [if_neg hfits, List.map_singleton, diagnostic_bodyType]
    · rw [if_pos (Check.fitsBody_iff.mpr ⟨m, hm, hrepeated, hobject⟩), List.map_nil]
  · rw [List.length_map]
    exact Check.length_body_le b

/-- What a run reports of bodies is read off the rules, one by one. A rule that has no verb, or no
body, or one that takes everything that is left, has no report of its body. A named body is one
field path, with a field for each element of the name. If these are several, there is one report,
which quotes the name; if it is one, there is a report that quotes the path where the field is a
scalar, is repeated or does not render as an object, and none where it is a single message that
does. So no binding has two reports of its body. -/
theorem bodies_reported {b : MethodBinding}
    (h : MethodBinding.resolve v.schema method.input rule = .ok b) :
    List.Forall₂ (fun x a => BodyReported v method x a (bodyReports (v.block method a)))
      (rule :: rule.additional) (b.primary :: b.additional) ∧
    ∃ found, (∀ r, (v.run method (some b)).run r = (.ok (), r.append found)) ∧
      bodyReports found =
        (b.primary :: b.additional).flatMap fun a => bodyReports (v.block method a) := by
  obtain ⟨hprimary, hadditional⟩ := MethodBinding.resolve_eq_ok_iff.mp h
  exact ⟨.cons (bodyReported_of_resolve hprimary)
      (hadditional.imp fun x a hx => bodyReported_of_resolve hx),
    _, run_some v method b, bodyReports_bindings v method b⟩

/-! ## A body inside a field and one that is a text -/

def bookTitle : Field := ⟨"v1.Book", 0, "title", 1, ⟨.string, false, none⟩⟩

def requestBook : Field :=
  ⟨"v1.CreateBookRequest", 0, "book", 1, ⟨.message, false, some ⟨"v1.Book", false⟩⟩⟩

def requestName : Field := ⟨"v1.CreateBookRequest", 1, "name", 2, ⟨.string, false, none⟩⟩

def renameRule : HttpRule :=
  ⟨some (.standard .put "/v1/books"), " name ", "", []⟩

/-- A rule with two bodies, neither of which is a message that is a field of the request. -/
def createBookRule : HttpRule :=
  ⟨some (.standard .post "/v1/books"), "book.title", "", [renameRule]⟩

def createBook : Method :=
  ⟨"v1.Books.CreateBook", ⟨"v1.CreateBookRequest", false⟩, ⟨"v1.Book", false⟩,
    some createBookRule, .ofElement "books.proto" "v1.Books.CreateBook"⟩

def bookSchema : Schema where
  messages := [⟨"v1.Book", "books.proto", false, [bookTitle]⟩,
    ⟨"v1.CreateBookRequest", "books.proto", false, [requestBook, requestName]⟩]
  methods := [createBook]
  targets := ["books.proto"]

def renameBinding : Binding :=
  ⟨some .put, "/v1/books", .field " name ", [.single requestName], [], [.single requestBook], "", 0⟩

def createBookBinding : MethodBinding where
  primary := ⟨some .post, "/v1/books", .field "book.title", [.cons requestBook (.single bookTitle)],
    [], [.single requestName], "", 1⟩
  additional := [renameBinding]

/-- The name of the first body is quoted as it is written, the path of the second without the
blanks around it. -/
theorem bodies_createBook :
    MethodBinding.resolve bookSchema createBook.input createBookRule = .ok createBookBinding ∧
    ∃ found, (∀ r, (run ⟨bookSchema, .default⟩ createBook (some createBookBinding)).run r =
        (.ok (), r.append found)) ∧
      bodyReports found =
        [nestedBodyReport createBook "book.title", bodyTypeReport createBook "name"] := by
  have hnames : PathTemplate.namesIn "/v1/books" = [] := by cbv
  have hresolve : MethodBinding.resolve bookSchema createBook.input createBookRule =
      .ok createBookBinding := by
    refine MethodBinding.resolve_eq_ok_iff.mpr ⟨?_, .cons ?_ .nil⟩
    · exact Binding.resolve_of_namesIn_eq hnames rfl (by decide +kernel)
    · exact Binding.resolve_of_namesIn_eq hnames rfl (by decide +kernel)
  obtain ⟨hreported, found, hrun, hfound⟩ := bodies_reported (v := ⟨bookSchema, .default⟩) hresolve
  obtain _ | ⟨hprimary, hrest⟩ := hreported
  obtain _ | ⟨hadditional, -⟩ := hrest
  obtain ⟨_, -, -, -, hnested⟩ := hprimary.named (by decide) (by decide)
  obtain ⟨p, -, hp, -, hsingle⟩ := hadditional.named (by decide) (by decide)
  obtain rfl : p = .single requestName := List.singleton_inj.mp hp.symm
  have hname : FieldPath.text (.single requestName) = "name" := by decide +kernel
  have hscalar := ((hsingle (by decide)).2 (by decide +kernel)).1 (.inl rfl)
  refine ⟨hresolve, found, hrun, ?_⟩
  rw [hfound, createBookBinding, List.flatMap_cons, List.flatMap_singleton, hscalar, hname]
  exact congrArg (· ++ _) ((hnested (by decide)).1 (by decide +kernel))

end Validator

end HttpTranscoding
