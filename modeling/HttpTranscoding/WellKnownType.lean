/-!
# Well-known types

The message types of `google.protobuf` that have a JSON rendering of their own.
A type is told by its full name (`WellKnownType.ofName`), and three predicates
say where in an HTTP request or response its rendering fits: as the whole body,
as the value of a query parameter, or as a segment of the path.
-/

namespace HttpTranscoding

/-- The special rendering of a message type; `ordinary` for a type that has none. -/
inductive WellKnownType
  | ordinary | any | duration | empty | fieldMask | struct | timestamp | value | listValue
  | doubleValue | floatValue | int64Value | uint64Value | int32Value | uint32Value
  | boolValue | stringValue | bytesValue
deriving DecidableEq

namespace WellKnownType

/-- Every type that has a rendering of its own. -/
def all : List WellKnownType :=
  [any, duration, empty, fieldMask, struct, timestamp, value, listValue, doubleValue, floatValue,
    int64Value, uint64Value, int32Value, uint32Value, boolValue, stringValue, bytesValue]

/-- The full name of the message type, empty for `ordinary`. -/
def fullName : WellKnownType → String
  | ordinary => ""
  | any => "google.protobuf.Any"
  | duration => "google.protobuf.Duration"
  | empty => "google.protobuf.Empty"
  | fieldMask => "google.protobuf.FieldMask"
  | struct => "google.protobuf.Struct"
  | timestamp => "google.protobuf.Timestamp"
  | value => "google.protobuf.Value"
  | listValue => "google.protobuf.ListValue"
  | doubleValue => "google.protobuf.DoubleValue"
  | floatValue => "google.protobuf.FloatValue"
  | int64Value => "google.protobuf.Int64Value"
  | uint64Value => "google.protobuf.UInt64Value"
  | int32Value => "google.protobuf.Int32Value"
  | uint32Value => "google.protobuf.UInt32Value"
  | boolValue => "google.protobuf.BoolValue"
  | stringValue => "google.protobuf.StringValue"
  | bytesValue => "google.protobuf.BytesValue"

/-- The label that listings show for the type. -/
def label : WellKnownType → String
  | ordinary => "NONE"
  | any => "ANY"
  | duration => "DURATION"
  | empty => "EMPTY"
  | fieldMask => "FIELD_MASK"
  | struct => "STRUCT"
  | timestamp => "TIMESTAMP"
  | value => "VALUE"
  | listValue => "LIST_VALUE"
  | doubleValue => "DOUBLE_VALUE"
  | floatValue => "FLOAT_VALUE"
  | int64Value => "INT64_VALUE"
  | uint64Value => "UINT64_VALUE"
  | int32Value => "INT32_VALUE"
  | uint32Value => "UINT32_VALUE"
  | boolValue => "BOOL_VALUE"
  | stringValue => "STRING_VALUE"
  | bytesValue => "BYTES_VALUE"

/-- The rendering of the message type with the given full name. -/
def ofName (name : String) : WellKnownType :=
  (all.find? (·.fullName == name)).getD ordinary

theorem ofName_fullName (t : WellKnownType) : ofName t.fullName = t := by
  cases t <;> decide

/-- Whether the type renders as a JSON object, as a request or response body must. -/
def rendersAsObject : WellKnownType → Bool
  | ordinary | any | empty | struct => true
  | _ => false

/-- Whether the type renders as the value of a single query parameter. -/
def rendersAsParameter : WellKnownType → Bool
  | ordinary | any | empty | struct | value | listValue => false
  | _ => true

/-- Whether the type renders as a single segment of a path. -/
def rendersAsSegment : WellKnownType → Bool
  | ordinary | any | empty | struct | value | listValue => false
  | _ => true

end WellKnownType

end HttpTranscoding
