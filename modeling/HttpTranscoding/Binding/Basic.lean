import HttpTranscoding.Binding.Unbound
import HttpTranscoding.PathTemplate
/-!
# Bindings

A rule with its field paths resolved against the request of a method. Every path
to a request field belongs to the path template, to the body or to the query
parameters: what the template and a named body leave unbound is sent as query
parameters, or in the body if that is declared to take everything unbound.

The rule of a method's `http` option brings its additional rules with it
(`MethodBinding`). Rules nested in those are counted and otherwise ignored.
-/

namespace HttpTranscoding

structure Binding where
  verb? : Option Verb
  path : String
  body : RequestBody
  bodyFields : List FieldPath
  pathFields : List FieldPath
  paramFields : List FieldPath
  /-- The selector that the rule declares. -/
  selector : String
  /-- How many additional rules the rule declares. -/
  nested : Nat

/-- The bindings of a method: that of a rule itself and those of its additional rules. -/
structure MethodBinding where
  primary : Binding
  additional : List Binding

namespace Binding

/-- What the path leaves over, shared out between the body and the query parameters. -/
def share (s : Schema) (request : MessageRef) (pathFields : List FieldPath) :
    RequestBody → Except BindingError (List FieldPath × List FieldPath)
  | .absent => .ok ([], unbound s request pathFields)
  | .unbound => .ok (unbound s request pathFields, [])
  | .field path =>
    (FieldPath.resolve s request path).map fun bodyField =>
      ([bodyField], unbound s request (pathFields ++ [bodyField]))

/-- The binding of a rule that stands alone. The variables of the path are resolved
before the body. -/
def resolve (s : Schema) (request : MessageRef) (rule : HttpRule) :
    Except BindingError Binding := do
  let pathFields ← (PathTemplate.namesIn rule.template).mapM (FieldPath.resolve s request)
  let body := RequestBody.declared rule.body
  let (bodyFields, paramFields) ← share s request pathFields body
  return ⟨rule.verb?, rule.template, body, bodyFields, pathFields, paramFields, rule.selector,
    rule.additional.length⟩

end Binding

namespace MethodBinding

/-- The bindings of a rule and of its additional rules, in order. -/
def resolve (s : Schema) (request : MessageRef) (rule : HttpRule) :
    Except BindingError MethodBinding := do
  let primary ← Binding.resolve s request rule
  let additional ← rule.additional.mapM (Binding.resolve s request)
  return ⟨primary, additional⟩

/-- The bindings that a method declares, if it has an `http` option. -/
def ofMethod? (s : Schema) (method : Method) : Except BindingError (Option MethodBinding) :=
  match method.http with
  | none => .ok none
  | some rule => (resolve s method.input rule).map some

end MethodBinding

end HttpTranscoding
