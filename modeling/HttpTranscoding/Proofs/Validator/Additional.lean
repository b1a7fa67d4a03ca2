import HttpTranscoding.Proofs.Validator.Run

/-!
# Additional rules

An additional rule is validated as if it stood alone. A rule resolves together with its
additional rules, which is to resolve each of them without those nested in it
(`HttpRule.alone`), and a run records one block for each of the rules: what a run under
that rule alone records (`Validator.Yields`), after what an additional rule must not
declare (`HttpRule.excess`).

* `MethodBinding.resolve_eq_error_iff`: the first rule that does not resolve decides;
* `Validator.yields_iff`: the blocks of a run;
* `Validator.additional_as_alone`: both, and that it does not matter what the rules
  nested in additional ones look like.
-/

namespace HttpTranscoding

/-! ## Rules that stand alone -/

/-- The rule without its additional rules. -/
def HttpRule.alone (rule : HttpRule) : HttpRule :=
  { rule with additional := [] }

/-- What is reported of an additional rule for what it declares and must not. -/
def HttpRule.excess (method : Method) (rule : HttpRule) : List Diagnostic :=
  (if rule.additional = [] then [] else [Violation.nestedRules.diagnostic method]) ++
    if rule.selector = "" then [] else [Violation.nestedSelector.diagnostic method]

/-- The rule and its additional rules without what is nested in these, but with whether there
is anything nested. -/
def HttpRule.surface (rule : HttpRule) : HttpRule × List (HttpRule × Bool) :=
  (rule.alone, rule.additional.map fun x => (x.alone, x.additional.isEmpty))

theorem HttpRule.excess_congr {method : Method} {x y : HttpRule} (halone : x.alone = y.alone)
    (hnested : x.additional.isEmpty = y.additional.isEmpty) :
    x.excess method = y.excess method := by
  have hselector : x.alone.selector = y.alone.selector := by rw [halone]
  change x.selector = y.selector at hselector
  have hadditional : x.additional = [] ↔ y.additional = [] := by
    rw [← List.isEmpty_iff, ← List.isEmpty_iff, hnested]
  simp only [excess, hselector, hadditional]

variable {s : Schema} {request : MessageRef} {rule : HttpRule}

/-- A rule that stands alone resolves like the rule itself, but has nothing nested in it. -/
theorem Binding.resolve_alone : Binding.resolve s request rule.alone =
    (Binding.resolve s request rule).map fun b => { b with nested := 0 } := by
  have htemplate : rule.alone.template = rule.template := rfl
  have hbody : rule.alone.body = rule.body := rfl
  unfold Binding.resolve
  rw [htemplate, hbody]
  cases (PathTemplate.namesIn rule.template).mapM (FieldPath.resolve s request) with
  | error e => rfl
  | ok pathFields =>
    cases hshare : Binding.share s request pathFields (RequestBody.declared rule.body) with
    | error e => simp only [hshare, bind, Except.bind, Except.map]
    | ok fields => simp only [hshare, bind, Except.bind, Except.map]; rfl

theorem MethodBinding.resolve_alone : MethodBinding.resolve s request rule.alone =
    (Binding.resolve s request rule).map fun b => ⟨{ b with nested := 0 }, []⟩ := by
  have hnone : rule.alone.additional = [] := rfl
  unfold MethodBinding.resolve
  rw [hnone, Binding.resolve_alone]
  cases Binding.resolve s request rule <;> rfl

theorem MethodBinding.exists_resolve_alone_iff :
    (∃ b, MethodBinding.resolve s request rule.alone = .ok b) ↔
      ∃ b, Binding.resolve s request rule = .ok b := by
  rw [resolve_alone]
  cases Binding.resolve s request rule <;> simp [Except.map]

theorem MethodBinding.resolve_alone_eq_error_iff {e : BindingError} :
    MethodBinding.resolve s request rule.alone = .error e ↔
      Binding.resolve s request rule = .error e := by
  rw [resolve_alone]
  cases Binding.resolve s request rule <;> simp [Except.map]

theorem MethodBinding.resolve_eq_error_iff_mapM {e : BindingError} :
    MethodBinding.resolve s request rule = .error e ↔
      ((rule :: rule.additional).map HttpRule.alone).mapM (MethodBinding.resolve s request) =
        .error e := by
  have hrules : MethodBinding.resolve s request rule = .error e ↔
      (rule :: rule.additional).mapM (Binding.resolve s request) = .error e := by
    unfold MethodBinding.resolve
    simp [List.mapM_cons, bind_eq_error_iff, pure, Except.pure]
  rw [hrules, List.mapM_map, mapM_eq_error_iff, mapM_eq_error_iff]
  simp only [Function.comp_apply, exists_resolve_alone_iff, resolve_alone_eq_error_iff]

/-- A rule does not resolve if it or one of its additional rules does not by itself, and the
first of them that does not decides on the error. -/
theorem MethodBinding.resolve_eq_error_iff {e : BindingError} :
    MethodBinding.resolve s request rule = .error e ↔
      ∃ before x after, rule :: rule.additional = before ++ x :: after ∧
        (∀ y ∈ before, ∃ b, MethodBinding.resolve s request y.alone = .ok b) ∧
        MethodBinding.resolve s request x.alone = .error e := by
  rw [resolve_eq_error_iff_mapM, List.mapM_map, mapM_eq_error_iff]
  rfl

/-! ## The blocks of a run -/

namespace Validator

variable {v : Validator} {method : Method}

/-- The rule resolves for the method, and a run on its bindings records `found`, whatever was
recorded before. -/
def Yields (v : Validator) (method : Method) (rule : HttpRule) (found : List Diagnostic) : Prop :=
  ∃ b, MethodBinding.resolve v.schema method.input rule = .ok b ∧
    ∀ r, (v.run method (some b)).run r = (.ok (), r.append found)

theorem run_some (v : Validator) (method : Method) (b : MethodBinding) (r : Reporter) :
    (v.run method (some b)).run r = (.ok (), r.append
      ((Check.bindings v.schema v.options method b).map (·.diagnostic method))) := by
  rw [run_eq, violations_some]

theorem Yields.unique {found found' : List Diagnostic} (h : v.Yields method rule found)
    (h' : v.Yields method rule found') : found = found' := by
  obtain ⟨b, hb, hrun⟩ := h
  obtain ⟨b', hb', hrun'⟩ := h'
  obtain rfl : b = b' := Except.ok.inj (hb.symm.trans hb')
  obtain ⟨-, hreporter⟩ := Prod.mk.inj ((hrun Reporter.empty).symm.trans (hrun' Reporter.empty))
  simpa [Reporter.append, Reporter.empty] using hreporter

theorem yields_of_resolve {b : MethodBinding}
    (h : MethodBinding.resolve v.schema method.input rule = .ok b) :
    v.Yields method rule ((Check.bindings v.schema v.options method b).map (·.diagnostic method)) :=
  ⟨b, h, run_some v method b⟩

/-- What is recorded of one binding by itself. -/
def block (v : Validator) (method : Method) (b : Binding) : List Diagnostic :=
  (Check.binding v.schema v.options method b).map (·.diagnostic method)

/-- A run under a rule that stands alone records the block of its binding. -/
theorem yields_alone_iff {found : List Diagnostic} : v.Yields method rule.alone found ↔
    ∃ b, Binding.resolve v.schema method.input rule = .ok b ∧ v.block method b = found := by
  have hyields : ∀ b, Binding.resolve v.schema method.input rule = .ok b →
      v.Yields method rule.alone (v.block method b) := by
    intro b h
    have halone : MethodBinding.resolve v.schema method.input rule.alone =
        .ok ⟨{ b with nested := 0 }, []⟩ := by rw [MethodBinding.resolve_alone, h]; rfl
    have hown : Check.bindings v.schema v.options method ⟨{ b with nested := 0 }, []⟩ =
        Check.binding v.schema v.options method b := List.append_nil _
    rw [block, ← hown]
    exact yields_of_resolve halone
  constructor
  · rintro ⟨b₀, hb₀, hrun⟩
    obtain ⟨b, h⟩ := MethodBinding.exists_resolve_alone_iff.mp ⟨b₀, hb₀⟩
    exact ⟨b, h, (hyields b h).unique ⟨b₀, hb₀, hrun⟩⟩
  · rintro ⟨b, h, rfl⟩
    exact hyields b h

theorem excess_eq {b : Binding} (h : Binding.resolve v.schema method.input rule = .ok b) :
    (Check.additionalRule b).map (·.diagnostic method) = rule.excess method := by
  obtain ⟨-, -, -, -, -, hselector, hnested⟩ := Binding.resolve_eq_ok_iff.mp h
  unfold Check.additionalRule HttpRule.excess
  rw [hselector, hnested]
  by_cases hadditional : rule.additional = [] <;> by_cases hnamed : rule.selector = "" <;>
    simp [hadditional, hnamed]

/-- Each additional rule has a block of its own, whose first part is its excess and whose rest
is what a run under it alone records. -/
def Blocks (v : Validator) (method : Method) (additional : List HttpRule)
    (blocks : List (List Diagnostic)) : Prop :=
  List.Forall₂ (fun x block => ∃ found, v.Yields method x.alone found ∧
    block = x.excess method ++ found) additional blocks

theorem blocks_iff {additional : List HttpRule} {blocks : List (List Diagnostic)} :
    v.Blocks method additional blocks ↔ ∃ bindings,
      List.Forall₂ (fun x b => Binding.resolve v.schema method.input x = .ok b)
        additional bindings ∧
        blocks = bindings.map fun b =>
          (Check.additionalRule b).map (·.diagnostic method) ++ v.block method b := by
  unfold Blocks
  simp only [yields_alone_iff]
  constructor
  · intro h
    induction h with
    | nil => exact ⟨[], .nil, rfl⟩
    | cons hblock _ ih =>
      obtain ⟨_, ⟨b, hb, rfl⟩, rfl⟩ := hblock
      obtain ⟨bindings, hbindings, rfl⟩ := ih
      exact ⟨b :: bindings, .cons hb hbindings, by rw [List.map_cons, excess_eq hb]⟩
  · rintro ⟨bindings, h, rfl⟩
    rw [List.forall₂_map_right_iff]
    exact h.imp fun x b hb => ⟨_, ⟨b, hb, rfl⟩, by rw [excess_eq hb]⟩

theorem map_diagnostic_bindings (v : Validator) (method : Method) (b : MethodBinding) :
    (Check.bindings v.schema v.options method b).map (·.diagnostic method) =
      v.block method b.primary ++ (b.additional.map fun a =>
        (Check.additionalRule a).map (·.diagnostic method) ++ v.block method a).flatten := by
  simp [Check.bindings, block, List.flatMap, Function.comp_def]

/-- A run under a rule records what a run under the rule alone does, and then the blocks of the
additional rules. -/
theorem yields_iff {found : List Diagnostic} : v.Yields method rule found ↔
    ∃ own blocks, v.Yields method rule.alone own ∧ v.Blocks method rule.additional blocks ∧
      found = own ++ blocks.flatten := by
  simp only [yields_alone_iff, blocks_iff]
  constructor
  · rintro ⟨b, hb, hrun⟩
    obtain ⟨hprimary, hadditional⟩ := MethodBinding.resolve_eq_ok_iff.mp hb
    refine ⟨_, _, ⟨b.primary, hprimary, rfl⟩, ⟨b.additional, hadditional, rfl⟩, ?_⟩
    rw [← map_diagnostic_bindings]
    exact Yields.unique ⟨b, hb, hrun⟩ (yields_of_resolve hb)
  · rintro ⟨_, _, ⟨primary, hprimary, rfl⟩, ⟨additional, hadditional, rfl⟩, rfl⟩
    have hb : MethodBinding.resolve v.schema method.input rule = .ok ⟨primary, additional⟩ :=
      MethodBinding.resolve_eq_ok_iff.mpr ⟨hprimary, hadditional⟩
    have hyields := yields_of_resolve hb
    rwa [map_diagnostic_bindings] at hyields

/-! ## Nested rules -/

section Surface

variable {rule' : HttpRule}

theorem resolve_eq_error_of_surface_eq (h : rule.surface = rule'.surface) {e : BindingError}
    (he : MethodBinding.resolve s request rule = .error e) :
    MethodBinding.resolve s request rule' = .error e := by
  have hrules : ∀ x : HttpRule, (x :: x.additional).map HttpRule.alone =
      x.surface.1 :: x.surface.2.map (·.1) := fun x => by simp [HttpRule.surface]
  rw [MethodBinding.resolve_eq_error_iff_mapM, hrules] at he ⊢
  rwa [← h]

theorem blocks_of_map_eq {additional additional' : List HttpRule} {blocks : List (List Diagnostic)}
    (h : additional.map (fun x => (x.alone, x.additional.isEmpty)) =
      additional'.map fun x => (x.alone, x.additional.isEmpty))
    (hblocks : v.Blocks method additional blocks) : v.Blocks method additional' blocks := by
  unfold Blocks at hblocks ⊢
  induction hblocks generalizing additional' with
  | nil =>
    obtain rfl : additional' = [] := by simpa using h.symm
    exact .nil
  | @cons x block rest blocks hblock _ ih =>
    cases additional' with
    | nil => simp at h
    | cons y rest' =>
      obtain ⟨hxy, hrest⟩ := List.cons.inj h
      obtain ⟨halone, hnested⟩ := Prod.mk.inj hxy
      obtain ⟨found, hfound, rfl⟩ := hblock
      refine .cons ⟨found, halone ▸ hfound, ?_⟩ (ih hrest)
      rw [HttpRule.excess_congr halone hnested]

theorem yields_of_surface_eq (h : rule.surface = rule'.surface) {found : List Diagnostic}
    (hfound : v.Yields method rule found) : v.Yields method rule' found := by
  obtain ⟨halone, hadditional⟩ := Prod.mk.inj h
  obtain ⟨own, blocks, hown, hblocks, rfl⟩ := yields_iff.mp hfound
  exact yields_iff.mpr ⟨own, blocks, halone ▸ hown, blocks_of_map_eq hadditional hblocks, rfl⟩

end Surface

/-- Additional rules are validated as if they stood alone. A rule resolves if and only if it
and each of its additional rules does alone, and otherwise fails with the error of the first
of them that does not. A run on its bindings records what a run under the rule alone does, and
then for each additional rule its excess and what a run under it alone does. What is nested in
an additional rule has no part in any of this, except for whether there is anything. -/
theorem additional_as_alone (v : Validator) (method : Method) (rule : HttpRule) :
    ((∃ b, MethodBinding.resolve v.schema method.input rule = .ok b) ↔
      ∀ x ∈ rule :: rule.additional,
        ∃ b, MethodBinding.resolve v.schema method.input x.alone = .ok b) ∧
    (∀ e, MethodBinding.resolve v.schema method.input rule = .error e ↔
      ∃ before x after, rule :: rule.additional = before ++ x :: after ∧
        (∀ y ∈ before, ∃ b, MethodBinding.resolve v.schema method.input y.alone = .ok b) ∧
        MethodBinding.resolve v.schema method.input x.alone = .error e) ∧
    (∀ b, MethodBinding.resolve v.schema method.input rule = .ok b →
      ∃ own blocks, v.Yields method rule.alone own ∧ v.Blocks method rule.additional blocks ∧
        ∀ r, (v.run method (some b)).run r = (.ok (), r.append (own ++ blocks.flatten))) ∧
    (∀ rule', rule.surface = rule'.surface →
      (∀ e, MethodBinding.resolve v.schema method.input rule = .error e ↔
        MethodBinding.resolve v.schema method.input rule' = .error e) ∧
      ∀ found, v.Yields method rule found ↔ v.Yields method rule' found) := by
  refine ⟨?_, fun e => MethodBinding.resolve_eq_error_iff, fun b hb => ?_, fun rule' h => ⟨?_, ?_⟩⟩
  · simp only [MethodBinding.exists_resolve_alone_iff]
    exact MethodBinding.exists_resolve_iff
  · obtain ⟨own, blocks, hown, hblocks, hfound⟩ := yields_iff.mp (yields_of_resolve hb)
    exact ⟨own, blocks, hown, hblocks, fun r => hfound ▸ run_some v method b r⟩
  · exact fun e => ⟨resolve_eq_error_of_surface_eq h, resolve_eq_error_of_surface_eq h.symm⟩
  · exact fun found => ⟨yields_of_surface_eq h, yields_of_surface_eq h.symm⟩

end Validator

end HttpTranscoding
