import HttpTranscoding.Check.Violation
/-!
# Bodies

A body must render as one JSON object. For a request that concerns the field that
a binding names as its body, which must also be a field of the request itself;
for a response it concerns the whole output of the method. A binding whose kind
is no verb has no bodies to speak of.
-/

namespace HttpTranscoding.Check

/-- Whether a field of the given type can be the body of a request. -/
def fitsBody (t : TypeRef) : Bool :=
  t.isMessage && !t.repeated && t.wellKnown.rendersAsObject

/-- What is wrong with the body of a binding. -/
def body (b : Binding) : List Violation :=
  match b.verb?, b.body with
  | none, _ => []
  | _, .absent => []
  | _, .unbound => []
  | some _, .field path =>
    if !FieldPath.isSingleElement path then [.nestedBody path]
    else
      match b.bodyFields with
      | [field] => if fitsBody field.type then [] else [.bodyType field]
      | _ => []

/-- What is wrong with the response of a method under a binding of the given kind. -/
def response (method : Method) : Option Verb → List Violation
  | none => []
  | some _ => if method.outputType.wellKnown.rendersAsObject then [] else [.responseType]

end HttpTranscoding.Check
