import HttpTranscoding.Check.Violation
/-!
# Path variables

A path variable fills one segment of a path, so its field must hold one value
that a segment can show. No two variables may capture overlapping paths: neither
the same field, nor a field and something inside it.
-/

namespace HttpTranscoding.Check

/-- What keeps a field of the given type from filling a segment, if anything does. -/
def segmentFault? (t : TypeRef) : Option SegmentFault :=
  if t.isMap then some .map
  else if t.repeated then some .repeated
  else if t.isMessage && !t.wellKnown.rendersAsSegment then some .message
  else none

/-- What is wrong with the fields of path variables. -/
def segments (paths : List FieldPath) : List Violation :=
  paths.filterMap fun p => (segmentFault? p.type).map (.pathSegment · p)

/-- The overlaps between path variables. Every ordered pair of places in the list is
looked at, the first place varying slowest; the covering path is named first. -/
def overlaps (paths : List FieldPath) : List Violation :=
  paths.zipIdx.flatMap fun (p, i) =>
    (paths.zipIdx.filter fun (q, j) => i ≠ j && p.covers q).map fun (q, _) => .overlap p q

end HttpTranscoding.Check
