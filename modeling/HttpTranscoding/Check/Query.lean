import HttpTranscoding.Check.Violation
import HttpTranscoding.Options
/-!
# Query parameters

A request field that is sent as query parameters is flattened into pairs of a
name and a value. That is possible for single values and for messages that can be
taken apart into such, but not for maps, for repeated messages, or for messages
that contain themselves.

`parameterFields` walks through the messages below a list of fields. It carries
the set of the names of the messages that are being taken apart: a name is added
before the fields of its message are walked and removed after them, so a message
is found to contain itself exactly if it turns up below itself.
-/

namespace HttpTranscoding

/-- What a field gives rise to when it is flattened. -/
inductive ParameterShape
  /-- A map, which has no names to flatten it by. -/
  | map
  /-- One or several plain values. -/
  | value
  /-- A message whose own fields are flattened in turn. -/
  | message (target : MessageRef)
deriving DecidableEq

def Field.parameterShape (f : Field) : ParameterShape :=
  if f.type.isMap then .map
  else
    match f.type.target with
    | none => .value
    | some target => if target.wellKnown.rendersAsParameter then .value else .message target

namespace Check

/-- Runs `visit` on the items in turn, each in the state that the one before leaves, and
joins what they find. -/
def collect {α β σ : Type} (visit : α → σ → List β × σ) : List α → σ → List β × σ
  | [], state => ([], state)
  | item :: rest, state =>
    let (found, between) := visit item state
    let (more, after) := collect visit rest between
    (found ++ more, after)

/-- What is wrong with one field and everything below it. `expanding` holds the names of the
messages that are being taken apart, and `depth` is how many more may be.

No walk needs more depth than the schema has messages: each step down adds the name of
a message that was not yet in `expanding`. -/
def parameterField (s : Schema) (allowed : NameSet) (depth : Nat) (f : Field)
    (expanding : NameSet) : List Violation × NameSet :=
  match f.parameterShape with
  | .map => ([.mapParameter f], expanding)
  | .value => ([], expanding)
  | .message target =>
    if target.fullName ∈ expanding then ([.cyclicParameter f], expanding)
    else if f.type.repeated && f.fullName ∈ allowed then ([], expanding)
    else
      let here := if f.type.repeated then [.repeatedParameter f] else []
      match depth with
      | 0 => (here, expanding)
      | depth + 1 =>
        let (below, after) := collect (parameterField s allowed depth) (s.fieldsOf target.fullName)
          (expanding.insert target.fullName)
        (here ++ below, after.erase target.fullName)

/-- What is wrong with a list of fields that are sent as query parameters while the
messages named in `expanding` are being taken apart, and the names of those that are
being taken apart afterwards. -/
def parameterFields (s : Schema) (allowed : NameSet) (fields : List Field)
    (expanding : NameSet) : List Violation × NameSet :=
  collect (parameterField s allowed s.messages.length) fields expanding

/-- What is wrong with the query parameters of a binding. -/
def parameters (s : Schema) (o : Options) (b : Binding) : List Violation :=
  (parameterFields s o.allowed (b.paramFields.map (·.last)) ∅).1

end Check

end HttpTranscoding
