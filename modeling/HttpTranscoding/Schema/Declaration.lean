import HttpTranscoding.HttpRule
/-!
# Declarations

The contents of a compiled file as its author declared them: messages with their
fields and the messages nested in them, services with their methods, and the
positions of the declarations in the source. Types are named, not resolved.
-/

namespace HttpTranscoding

/-- The types that a field can have. -/
inductive FieldKind
  | double | float | int64 | uint64 | int32 | fixed64 | fixed32 | bool | string | group | message
  | bytes | uint32 | enum | sfixed32 | sfixed64 | sint32 | sint64
deriving DecidableEq

namespace FieldKind

/-- The keyword that declares a field of the kind. -/
def keyword : FieldKind → String
  | double => "double"
  | float => "float"
  | int64 => "int64"
  | uint64 => "uint64"
  | int32 => "int32"
  | fixed64 => "fixed64"
  | fixed32 => "fixed32"
  | bool => "bool"
  | string => "string"
  | group => "group"
  | message => "message"
  | bytes => "bytes"
  | uint32 => "uint32"
  | enum => "enum"
  | sfixed32 => "sfixed32"
  | sfixed64 => "sfixed64"
  | sint32 => "sint32"
  | sint64 => "sint64"

/-- All kinds, each at the place that its number gives it. -/
def all : List FieldKind :=
  [double, float, int64, uint64, int32, fixed64, fixed32, bool, string, group, message, bytes,
    uint32, enum, sfixed32, sfixed64, sint32, sint64]

/-- The number of the kind in a compiled file; numbers count from 1. -/
def number (kind : FieldKind) : Nat :=
  all.idxOf kind + 1

/-- Whether the type of such a field is a message. -/
def refersToMessage (kind : FieldKind) : Bool :=
  kind = message || kind = group

end FieldKind

structure FieldDecl where
  name : String
  number : Int
  kind : FieldKind
  repeated : Bool
  /-- The name of the field's message type, where the kind refers to one. -/
  typeName : String

structure MessageDecl where
  name : String
  /-- Whether the message stands for the entries of a map field. -/
  mapEntry : Bool
  fields : List FieldDecl
  nested : List MessageDecl

structure MethodDecl where
  name : String
  input : String
  output : String
  http : Option HttpRule

structure ServiceDecl where
  name : String
  methods : List MethodDecl

/-- Where a declaration stands in its source. `path` leads to the declaration, by
turns through a field number and an index; `span` is its first line and column,
both counted from 0, and then the place where it ends. -/
structure SourceSpan where
  path : List Int
  span : List Int

structure FileDecl where
  name : String
  package : String
  messages : List MessageDecl
  services : List ServiceDecl
  spans : List SourceSpan

end HttpTranscoding
