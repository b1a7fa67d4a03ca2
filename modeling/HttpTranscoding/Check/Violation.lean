import HttpTranscoding.Binding.Basic
import HttpTranscoding.Diagnostic.Basic
import HttpTranscoding.Diagnostic.Template
/-!
# Violations

What can be wrong with the bindings of a method, with the fields and paths at
fault. `Violation.kind` is the rule that is broken and `Violation.diagnostic` the
report of it, an error at the place where the method is declared. Its message is
a template filled with names from the schema; `demand_template` says that the two
always fit, percent signs in the names or not.
-/

namespace HttpTranscoding

/-- What keeps a field from filling a segment of a path. -/
inductive SegmentFault
  | map | repeated | message
deriving DecidableEq

def SegmentFault.text : SegmentFault → String
  | map => "map"
  | repeated => "repeated"
  | message => "message"

inductive Violation
  /-- A map field is reached by query parameters. -/
  | mapParameter (field : Field)
  /-- A repeated message field is reached by query parameters. -/
  | repeatedParameter (field : Field)
  /-- Query parameters lead through a message back to the same message. -/
  | cyclicParameter (field : Field)
  /-- A path variable does not end in the value of a single segment. -/
  | pathSegment (fault : SegmentFault) (path : FieldPath)
  /-- The field of a path variable is that of another one or lies on the way to it. -/
  | overlap (path other : FieldPath)
  /-- The body names a field of a nested message. -/
  | nestedBody (path : String)
  /-- The body names a field that does not render as one JSON object. -/
  | bodyType (path : FieldPath)
  /-- The response does not render as a JSON object. -/
  | responseType
  /-- An additional rule has additional rules of its own. -/
  | nestedRules
  /-- An additional rule has a selector. -/
  | nestedSelector
deriving DecidableEq

namespace Violation

def kind : Violation → DiagnosticKind
  | mapParameter _ => .mapNotAllowedAsParam
  | repeatedParameter _ => .repeatedMessageNotAllowedAsParam
  | cyclicParameter _ => .cyclicParamReference
  | pathSegment _ _ => .mapOrRepeatedOrDisallowedMessageOnPath
  | overlap _ _ => .overlappingPathSelectors
  | nestedBody _ => .bodyMustBeTopLevelField
  | bodyType _ => .bodyMustBeNonRepeatedAllowedMessage
  | responseType => .responseNotJsonRenderable
  | nestedRules => .additionalBindingHasNestedBindings
  | nestedSelector => .additionalBindingHasSelector

/-- The template of what the report says of a violation. -/
def template : Violation → String
  | mapParameter _ =>
    "map field '%s' referred to by message '%s' cannot be mapped as an HTTP parameter."
  | repeatedParameter _ =>
    "repeated message field '%s' referred to by message '%s' cannot be mapped as an HTTP parameter."
  | cyclicParameter _ =>
    "cyclic message field '%s' referred to by message '%s' in method '%s' cannot be mapped as an HTTP parameter."
  | pathSegment fault _ => fault.text ++ " field not allowed: reached via '%s' on message '%s'."
  | overlap _ _ => "path contains overlapping field paths '%s' and '%s'."
  | nestedBody _ => "body field path '%s' should not reference sub messages."
  | bodyType _ => "body field path '%s' must be a non-repeated message."
  | responseType =>
    "type '%s' is not allowed as a response because it does not render as a JSON object."
  | nestedRules => "rules in additional_bindings must not specify additional_bindings"
  | nestedSelector => "rules in additional_bindings must not specify a selector"

/-- What a violation by the given method puts into its template. -/
def arguments (method : Method) : Violation → List Template.Argument
  | mapParameter field | repeatedParameter field =>
    [.text field.fullName, .text method.input.fullName]
  | cyclicParameter field =>
    [.text field.fullName, .text method.input.fullName, .text method.fullName]
  | pathSegment _ path => [.text path.text, .text method.input.fullName]
  | overlap path other => [.text path.text, .text other.text]
  | nestedBody path => [.text path]
  | bodyType path => [.text path.text]
  | responseType => [.text method.output.fullName]
  | nestedRules | nestedSelector => []

/-- Every template takes as many arguments as it is given. -/
theorem demand_template (method : Method) (v : Violation) :
    Template.demand v.template.toList = some (v.arguments method).length := by
  cases v with
  | pathSegment fault =>
    cases fault <;> dsimp only [template, arguments, List.length_cons, List.length_nil] <;>
      decide +kernel
  | _ => dsimp only [template, arguments, List.length_cons, List.length_nil]; decide +kernel

theorem exists_instantiate_eq_ok (method : Method) (v : Violation) :
    ∃ text, Template.instantiate v.template (v.arguments method) = .ok text :=
  Template.exists_instantiate_eq_ok (v.demand_template method)

/-- What the report says of a violation by the given method. -/
def message (method : Method) (v : Violation) : String :=
  match h : Template.instantiate v.template (v.arguments method) with
  | .ok text => text
  | .error _ => absurd (v.exists_instantiate_eq_ok method) (by simp [h])

theorem instantiate_template (method : Method) (v : Violation) :
    Template.instantiate v.template (v.arguments method) = .ok (v.message method) := by
  obtain ⟨text, h⟩ := v.exists_instantiate_eq_ok method
  unfold message
  split
  · assumption
  · simp_all

def diagnostic (method : Method) (v : Violation) : Diagnostic :=
  ⟨v.kind, .error, method.location, v.message method⟩

end Violation

end HttpTranscoding
