import HttpTranscoding.Check.Body
import HttpTranscoding.Check.Path
import HttpTranscoding.Check.Query
/-!
# Bindings

All that can be wrong with the bindings of a method, in the order of the report:
the body, overlaps, the response, query parameters and path variables of each
binding, the method's own first. What only additional rules must not do comes
before the checks of the rule that does it.
-/

namespace HttpTranscoding.Check

/-- What is wrong with one binding by itself. -/
def binding (s : Schema) (o : Options) (method : Method) (b : Binding) : List Violation :=
  body b ++ overlaps b.pathFields ++ response method b.verb? ++ parameters s o b ++
    segments b.pathFields

/-- What an additional rule declares and must not. -/
def additionalRule (b : Binding) : List Violation :=
  (if b.nested = 0 then [] else [.nestedRules]) ++
    (if b.selector = "" then [] else [.nestedSelector])

/-- What is wrong with the bindings of a method. -/
def bindings (s : Schema) (o : Options) (method : Method) (b : MethodBinding) : List Violation :=
  binding s o method b.primary ++
    b.additional.flatMap fun a => additionalRule a ++ binding s o method a

end HttpTranscoding.Check
