import HttpTranscoding.FieldPath
/-!
# Unbound fields

What is left of a message once some of its field paths are bound. The bound paths
are handed on as the fields that they still have to go through: at each field of
a message, `remainders` keeps of every path that begins there what follows the
field. A field where a path ends is bound, a field where none begins is unbound
as a whole, and a message that is bound in part is taken apart in turn.

The remainders shorten at every step, which bounds the depth even if messages
refer to each other in a circle.
-/

namespace HttpTranscoding

/-- What follows `f` in those of the paths that begin with it. -/
def remainders (f : Field) (paths : List (List Field)) : List (List Field) :=
  paths.filterMap fun
    | [] => none
    | g :: rest => if g = f then some rest else none

theorem length_flatten_remainders_lt {f : Field} {paths : List (List Field)}
    (h : remainders f paths ≠ []) : (remainders f paths).flatten.length < paths.flatten.length := by
  have weak (paths : List (List Field)) :
      (remainders f paths).flatten.length ≤ paths.flatten.length := by
    induction paths with
    | nil => simp [remainders]
    | cons p paths ih => cases p <;> grind [remainders]
  induction paths with
  | nil => simp [remainders] at h
  | cons p paths ih =>
    have := weak paths
    cases p <;> grind [remainders]

/-- The message that a path can go on into after `f`, if `f` holds exactly one. -/
def Field.nested? (f : Field) : Option MessageRef :=
  if f.type.repeated then none else f.type.target

/-- The shortest paths from a message that no path through the `bound` fields meets, in
the order of declaration. -/
def unboundPaths (s : Schema) (message : String) (bound : List (List Field)) : List FieldPath :=
  (s.fieldsOf message).flatMap fun f =>
    if _ : remainders f bound = [] then [.single f]
    else if [] ∈ remainders f bound then []
    else
      match f.nested? with
      | none => []
      | some target => (unboundPaths s target.fullName (remainders f bound)).map (.cons f)
termination_by bound.flatten.length
decreasing_by exact length_flatten_remainders_lt ‹_›

/-- The paths from a message to what the bound paths leave over. -/
def unbound (s : Schema) (message : MessageRef) (bound : List FieldPath) : List FieldPath :=
  unboundPaths s message.fullName (bound.map (·.fields))

end HttpTranscoding
