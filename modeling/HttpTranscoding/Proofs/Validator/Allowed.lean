import HttpTranscoding.Proofs.Options
import HttpTranscoding.Proofs.Query.Comparison
import HttpTranscoding.Proofs.Validator.Methods
import Mathlib.Data.List.Count

/-!
# Allowing more fields

To allow more repeated fields takes diagnostics away and changes nothing else. Only the
walk below query parameters reads the names of allowed fields, and it finds part of what it
found before (`Check.walk_sublist_of_subset`). So the diagnostics of a run are thinned
(`Thinned`): some of those that only query parameters have are missing.

* `Check.thinned_bindings`: the diagnostics of the bindings of a method;
* `Validator.allowing_only_thins`: runs, and exit codes of validations.
-/

namespace HttpTranscoding

/-- Whether diagnostics of the kind are found by a walk below query parameters. -/
def DiagnosticKind.concernsParameters : DiagnosticKind → Bool
  | mapNotAllowedAsParam | repeatedMessageNotAllowedAsParam | cyclicParamReference => true
  | mapOrRepeatedOrDisallowedMessageOnPath | overlappingPathSelectors
  | bodyMustBeTopLevelField | bodyMustBeNonRepeatedAllowedMessage | responseNotJsonRenderable
  | additionalBindingHasNestedBindings | additionalBindingHasSelector => false

/-! ## Thinned lists -/

/-- The diagnostics `less` are `more` without some that concern query parameters. -/
structure Thinned (more less : List Diagnostic) : Prop where
  sublist : less.Sublist more
  kept : more.filter (!·.kind.concernsParameters) = less.filter (!·.kind.concernsParameters)

namespace Thinned

variable {more less more' less' : List Diagnostic}

theorem refl (found : List Diagnostic) : Thinned found found :=
  ⟨.refl found, rfl⟩

theorem append (h : Thinned more less) (h' : Thinned more' less') :
    Thinned (more ++ more') (less ++ less') where
  sublist := h.sublist.append h'.sublist
  kept := by rw [List.filter_append, List.filter_append, h.kept, h'.kept]

theorem flatMap {α : Type} {f g : α → List Diagnostic} {items : List α}
    (h : ∀ item ∈ items, Thinned (f item) (g item)) :
    Thinned (items.flatMap f) (items.flatMap g) := by
  induction items with
  | nil => exact refl []
  | cons item rest ih =>
    rw [List.forall_mem_cons] at h
    exact h.1.append (ih h.2)

/-- Any part of diagnostics that all concern query parameters is what they may be thinned to. -/
theorem of_concernsParameters (hsub : less.Sublist more)
    (h : ∀ d ∈ more, d.kind.concernsParameters) : Thinned more less where
  sublist := hsub
  kept := by
    rw [List.filter_eq_nil_iff.mpr, List.filter_eq_nil_iff.mpr]
    · exact fun d hd => by simp [h d (hsub.subset hd)]
    · exact fun d hd => by simp [h d hd]

/-- Whatever is missing concerns query parameters. -/
theorem concernsParameters_of_mem_diff (h : Thinned more less) {d : Diagnostic}
    (hd : d ∈ more.diff less) : d.kind.concernsParameters := by
  by_contra hnot
  have hcount : more.count d = less.count d := by
    have := congrArg (List.count d) h.kept
    rwa [List.count_filter (by simp [hnot]), List.count_filter (by simp [hnot])] at this
  have hpos := List.count_pos_iff.mpr hd
  rw [List.count_diff] at hpos
  omega

end Thinned

/-! ## The bindings of a method -/

namespace Check

variable {s : Schema} {o₁ o₂ : Options} {method : Method}

theorem concernsParameters_of_mem_faults {allowed V : NameSet} {f : Field} {v : Violation}
    (h : v ∈ faults allowed V f) : v.kind.concernsParameters := by
  unfold faults at h
  grind [Violation.kind, DiagnosticKind.concernsParameters]

theorem concernsParameters_of_mem_parameters {b : Binding} {v : Violation}
    (h : v ∈ parameters s o₁ b) : v.kind.concernsParameters := by
  simp only [parameters, parameterFields_eq, List.mem_flatMap] at h
  obtain ⟨f, -, hv⟩ := h
  obtain ⟨W, g, -, hv⟩ := mem_walk_iff.mp hv
  exact concernsParameters_of_mem_faults hv

theorem parameters_sublist_of_subset (hsub : ∀ n ∈ o₁.allowed, n ∈ o₂.allowed) (b : Binding) :
    (parameters s o₂ b).Sublist (parameters s o₁ b) := by
  simp only [parameters, parameterFields_eq]
  exact List.Sublist.flatMap_right _ fun f _ => walk_sublist_of_subset hsub ∅ f

/-- The diagnostics of one binding are thinned if more fields are allowed. -/
theorem thinned_binding (hsub : ∀ n ∈ o₁.allowed, n ∈ o₂.allowed) (b : Binding) :
    Thinned ((binding s o₁ method b).map (·.diagnostic method))
      ((binding s o₂ method b).map (·.diagnostic method)) := by
  have hparameters : Thinned ((parameters s o₁ b).map (·.diagnostic method))
      ((parameters s o₂ b).map (·.diagnostic method)) := by
    refine .of_concernsParameters ((parameters_sublist_of_subset hsub b).map _) fun d hd => ?_
    obtain ⟨v, hv, rfl⟩ := List.mem_map.mp hd
    exact concernsParameters_of_mem_parameters hv
  simp only [binding, List.map_append]
  exact ((Thinned.refl _).append hparameters).append (.refl _)

/-- The diagnostics of the bindings of a method are thinned if more fields are allowed. -/
theorem thinned_bindings (hsub : ∀ n ∈ o₁.allowed, n ∈ o₂.allowed) (b : MethodBinding) :
    Thinned ((bindings s o₁ method b).map (·.diagnostic method))
      ((bindings s o₂ method b).map (·.diagnostic method)) := by
  simp only [bindings, List.map_append, List.map_flatMap]
  exact (thinned_binding hsub b.primary).append
    (.flatMap fun a _ => (Thinned.refl _).append (thinned_binding hsub a))

end Check

/-! ## Runs -/

namespace Validator

variable {s : Schema} {o₁ o₂ : Options}

/-- To allow more fields does not change which methods fail. -/
theorem violations_thinned (hsub : ∀ n ∈ o₁.allowed, n ∈ o₂.allowed) (method : Method)
    (given : Option MethodBinding) :
    (∃ e, violations ⟨s, o₁⟩ method given = .error e ∧
      violations ⟨s, o₂⟩ method given = .error e) ∨
    ∃ found₁ found₂, violations ⟨s, o₁⟩ method given = .ok found₁ ∧
      violations ⟨s, o₂⟩ method given = .ok found₂ ∧
      Thinned (found₁.map (·.diagnostic method)) (found₂.map (·.diagnostic method)) := by
  have hbindings : bindings? ⟨s, o₂⟩ method given = bindings? ⟨s, o₁⟩ method given := rfl
  unfold violations
  rw [hbindings]
  cases bindings? ⟨s, o₁⟩ method given with
  | error e => exact .inl ⟨e, rfl, rfl⟩
  | ok b? =>
    refine .inr ⟨_, _, rfl, rfl, ?_⟩
    cases b? with
    | none => exact .refl []
    | some b => exact Check.thinned_bindings hsub b

theorem run_thinned (hsub : ∀ n ∈ o₁.allowed, n ∈ o₂.allowed) (method : Method)
    (given : Option MethodBinding) (r : Reporter) : ∃ outcome found₁ found₂,
      (run ⟨s, o₁⟩ method given).run r = (outcome, r.append found₁) ∧
      (run ⟨s, o₂⟩ method given).run r = (outcome, r.append found₂) ∧ Thinned found₁ found₂ := by
  obtain ⟨e, h₁, h₂⟩ | ⟨found₁, found₂, h₁, h₂, hthinned⟩ := violations_thinned hsub method given
  · have hsame : r.append [] = r := by simp [Reporter.append]
    exact ⟨.error e, [], [], by rw [run_eq, h₁, hsame], by rw [run_eq, h₂, hsame], .refl []⟩
  · exact ⟨.ok (), _, _, by rw [run_eq, h₁], by rw [run_eq, h₂], hthinned⟩

theorem findings_thinned (hsub : ∀ n ∈ o₁.allowed, n ∈ o₂.allowed) (methods : List Method) :
    Thinned (findings ⟨s, o₁⟩ methods) (findings ⟨s, o₂⟩ methods) := by
  refine .flatMap fun m _ => ?_
  rw [check_eq, check_eq]
  obtain ⟨e, h₁, h₂⟩ | ⟨found₁, found₂, h₁, h₂, hthinned⟩ :=
    violations_thinned (s := s) hsub m none
  · rw [h₁, h₂]
    exact .refl []
  · rw [h₁, h₂]
    exact hthinned

/-- Methods are run up to the same failure, whatever fields are allowed. -/
theorem validateMethods_thinned (hsub : ∀ n ∈ o₁.allowed, n ∈ o₂.allowed)
    (methods : List Method) (r : Reporter) : ∃ outcome found₁ found₂,
      (validateMethods ⟨s, o₁⟩ methods).run r = (outcome, r.append found₁) ∧
      (validateMethods ⟨s, o₂⟩ methods).run r = (outcome, r.append found₂) ∧
      Thinned found₁ found₂ := by
  cases h : failures ⟨s, o₁⟩ methods with
  | nil =>
    have h₂ : failures ⟨s, o₂⟩ methods = [] := h
    exact ⟨.ok (), _, _, validateMethods_of_failures_nil h r, validateMethods_of_failures_nil h₂ r,
      findings_thinned hsub methods⟩
  | cons failed others =>
    obtain ⟨before, after, rfl, hbefore, he⟩ := exists_append_of_failures_cons h
    have hbefore₂ : failures ⟨s, o₂⟩ before = [] := hbefore
    exact ⟨.error failed.2, _, _, validateMethods_of_error (v := ⟨s, o₁⟩) hbefore he r,
      validateMethods_of_error (v := ⟨s, o₂⟩) hbefore₂ he r, findings_thinned hsub before⟩

theorem exitCode_of_thinned {found₁ found₂ : List Diagnostic} {r : Reporter}
    (h : Thinned found₁ found₂) (hzero : (r.append found₁).exitCode = 0) :
    (r.append found₂).exitCode = 0 := by
  rw [exitCode_eq_zero_iff] at hzero ⊢
  exact fun d hd => hzero d ((h.sublist.append_left r.diagnostics).subset hd)

/-- To allow more fields only takes diagnostics away. A run of a method has the same outcome and
records the same diagnostics in the same order, but for some that are missing; these are of the
kinds that only query parameters have, and those of all other kinds are still there. So an exit
code of 0 stays 0. -/
theorem allowing_only_thins (hsub : ∀ n ∈ o₁.allowed, n ∈ o₂.allowed) :
    (∀ method given r, ∃ outcome found₁ found₂,
      (run ⟨s, o₁⟩ method given).run r = (outcome, r.append found₁) ∧
      (run ⟨s, o₂⟩ method given).run r = (outcome, r.append found₂) ∧
      found₂.Sublist found₁ ∧
      (∀ d ∈ found₁.diff found₂, d.kind ∈ [.repeatedMessageNotAllowedAsParam,
        .mapNotAllowedAsParam, .cyclicParamReference]) ∧
      found₁.filter (!·.kind.concernsParameters) = found₂.filter (!·.kind.concernsParameters)) ∧
    (∀ r, ((validateModel ⟨s, o₁⟩).run r).2.exitCode = 0 →
      ((validateModel ⟨s, o₂⟩).run r).2.exitCode = 0) := by
  refine ⟨fun method given r => ?_, fun r hzero => ?_⟩
  · obtain ⟨outcome, found₁, found₂, h₁, h₂, hthinned⟩ := run_thinned hsub method given r
    refine ⟨outcome, found₁, found₂, h₁, h₂, hthinned.sublist, fun d hd => ?_, hthinned.kept⟩
    have hkind := hthinned.concernsParameters_of_mem_diff hd
    unfold DiagnosticKind.concernsParameters at hkind
    grind
  · obtain ⟨outcome, found₁, found₂, h₁, h₂, hthinned⟩ :=
      validateMethods_thinned (s := s) hsub s.methods r
    unfold validateModel at hzero ⊢
    rw [h₁] at hzero
    rw [h₂]
    exact exitCode_of_thinned hthinned hzero

/-! ## A search with filters -/

def filterText : Field := ⟨"v1.Filter", 0, "text", 1, ⟨.string, false, none⟩⟩

def queryFilters : Field :=
  ⟨"v1.Query", 0, "filters", 1, ⟨.message, true, some ⟨"v1.Filter", false⟩⟩⟩

def queryScope : Field := ⟨"v1.Query", 1, "scope", 2, ⟨.message, false, some ⟨"v1.Filter", false⟩⟩⟩

/-- The query sends several messages, and the path binds one. -/
def search : Method :=
  ⟨"v1.Notes.Search", ⟨"v1.Query", false⟩, ⟨"v1.Query", false⟩,
    some ⟨some (.standard .get "/v1/{scope}"), "", "", []⟩,
    .ofElement "search.proto" "v1.Notes.Search"⟩

def searchSchema : Schema where
  messages := [⟨"v1.Filter", "search.proto", false, [filterText]⟩,
    ⟨"v1.Query", "search.proto", false, [queryFilters, queryScope]⟩]
  methods := [search]
  targets := ["search.proto"]

def searchBinding : Binding where
  verb? := some .get
  path := "/v1/{scope}"
  body := .absent
  bodyFields := []
  pathFields := [.single queryScope]
  paramFields := [.single queryFilters]
  selector := ""
  nested := 0

def searchFaults : List Violation :=
  [.repeatedParameter queryFilters, .pathSegment .message (.single queryScope)]

/-- To allow the filters thins what is wrong with the search, and keeps what is wrong with
its path. -/
theorem run_search_thinned :
    (∀ n ∈ Options.default.allowed, n ∈ (Options.default.allow ["v1.Query.filters"]).allowed) ∧
      (run ⟨searchSchema, .default⟩ search none).run Reporter.empty =
        (.ok (), ⟨searchFaults.map (·.diagnostic search)⟩) ∧
      ∃ found, (run ⟨searchSchema, Options.default.allow ["v1.Query.filters"]⟩ search none).run
          Reporter.empty = (.ok (), ⟨found⟩) ∧
        found.Sublist (searchFaults.map (·.diagnostic search)) ∧
        (Violation.pathSegment .message (.single queryScope)).diagnostic search ∈ found := by
  have hsub : ∀ n ∈ Options.default.allowed,
      n ∈ (Options.default.allow ["v1.Query.filters"]).allowed :=
    fun n hn => Options.mem_allow.mpr (.inl hn)
  have hnames : PathTemplate.namesIn "/v1/{scope}" = ["scope"] := by cbv
  have hresolve : MethodBinding.resolve searchSchema search.input
      ⟨some (.standard .get "/v1/{scope}"), "", "", []⟩ = .ok ⟨searchBinding, []⟩ :=
    MethodBinding.resolve_eq_ok_iff.mpr
      ⟨Binding.resolve_of_namesIn_eq hnames rfl (by decide +kernel), .nil⟩
  have hbinding : MethodBinding.ofMethod? searchSchema search = .ok (some ⟨searchBinding, []⟩) :=
    congrArg (Except.map some) hresolve
  have hbound : Check.bindings searchSchema .default search ⟨searchBinding, []⟩ = searchFaults := by
    decide +kernel
  have hfaults : violations ⟨searchSchema, .default⟩ search none = .ok searchFaults := by
    rw [← hbound]
    simp only [violations, bindings?, hbinding, Except.map]
  have hrun : (run ⟨searchSchema, .default⟩ search none).run Reporter.empty =
      (.ok (), ⟨searchFaults.map (·.diagnostic search)⟩) := by
    rw [run_eq, hfaults]
    rfl
  obtain ⟨outcome, found₁, found₂, h₁, h₂, hsublist, -, hkept⟩ :=
    (allowing_only_thins (s := searchSchema) hsub).1 search none Reporter.empty
  obtain ⟨rfl, hfound⟩ := Prod.mk.inj (h₁.symm.trans hrun)
  obtain rfl : found₁ = searchFaults.map (·.diagnostic search) := Reporter.mk.inj hfound
  refine ⟨hsub, hrun, found₂, h₂, hsublist, ?_⟩
  refine List.mem_of_mem_filter (p := (!·.kind.concernsParameters)) ?_
  rw [← hkept]
  simp [searchFaults, Violation.diagnostic, Violation.kind, DiagnosticKind.concernsParameters]

end Validator

end HttpTranscoding
