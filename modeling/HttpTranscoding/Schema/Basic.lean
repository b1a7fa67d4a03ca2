import HttpTranscoding.Diagnostic.Location
import HttpTranscoding.Schema.Declaration
import HttpTranscoding.Schema.Name
import HttpTranscoding.WellKnownType
/-!
# Schemas

The messages and methods of a set of files, with every type name resolved. Since
messages may refer to each other in a circle, a type refers to its message by
full name, and `Schema.fieldsOf` gives the fields that the name stands for.

Where several messages have one full name, the name stands for the last that was
declared. The schema still holds the others, which nothing refers to.
-/

namespace HttpTranscoding

/-- A reference to a message of a schema. -/
structure MessageRef where
  fullName : String
  mapEntry : Bool
deriving DecidableEq

/-- The special rendering of the message. -/
def MessageRef.wellKnown (m : MessageRef) : WellKnownType :=
  .ofName m.fullName

/-- The type of a field; `target` is the message that a message field holds. -/
structure TypeRef where
  kind : FieldKind
  repeated : Bool
  target : Option MessageRef
deriving DecidableEq

namespace TypeRef

def isMessage (t : TypeRef) : Bool :=
  t.target.isSome

/-- Whether the type is that of a map: entries of a map, repeated. -/
def isMap (t : TypeRef) : Bool :=
  t.repeated && t.target.any (·.mapEntry)

def wellKnown (t : TypeRef) : WellKnownType :=
  (t.target.map (·.wellKnown)).getD .ordinary

/-- The type of a request or response. -/
def ofMessage (m : MessageRef) : TypeRef :=
  ⟨.message, false, some m⟩

end TypeRef

/-- A field of a message. `position` is its index among the fields that the message
declares, so that two fields of one name and type are still two fields. -/
structure Field where
  parent : String
  position : Nat
  name : String
  number : Int
  type : TypeRef
deriving DecidableEq

def Field.fullName (f : Field) : String :=
  f.parent ++ "." ++ f.name

structure Message where
  fullName : String
  file : String
  mapEntry : Bool
  fields : List Field
deriving DecidableEq

namespace Message

def name (m : Message) : String :=
  Name.lastPart m.fullName

def ref (m : Message) : MessageRef :=
  ⟨m.fullName, m.mapEntry⟩

end Message

structure Method where
  fullName : String
  input : MessageRef
  output : MessageRef
  http : Option HttpRule
  location : Location

namespace Method

def name (m : Method) : String :=
  Name.lastPart m.fullName

def inputType (m : Method) : TypeRef :=
  .ofMessage m.input

def outputType (m : Method) : TypeRef :=
  .ofMessage m.output

end Method

structure Schema where
  /-- Every declared message, in the order of declaration. -/
  messages : List Message
  /-- The methods of the target files, in the order of declaration. -/
  methods : List Method
  /-- The names of the files whose methods are of interest. -/
  targets : List String

namespace Schema

/-- The message that a full name stands for. -/
def message? (s : Schema) (fullName : String) : Option Message :=
  s.messages.findRev? (·.fullName = fullName)

/-- The message that a reference stands for; it may begin with a dot. -/
def find? (s : Schema) (reference : String) : Option Message :=
  s.message? (Name.absolute reference)

/-- The fields of the message that a full name stands for. -/
def fieldsOf (s : Schema) (fullName : String) : List Field :=
  ((s.message? fullName).map (·.fields)).getD []

/-- A name that stands for fields is the name of a message. -/
theorem exists_message_of_mem_fieldsOf {s : Schema} {name : String} {f : Field}
    (h : f ∈ s.fieldsOf name) : ∃ m ∈ s.messages, m.fullName = name ∧ f ∈ m.fields := by
  unfold fieldsOf message? at h
  rw [List.findRev?_eq_find?_reverse] at h
  cases hm : s.messages.reverse.find? (·.fullName = name) with
  | none => simp [hm] at h
  | some m =>
    refine ⟨m, List.mem_reverse.mp (List.mem_of_find?_eq_some hm), ?_, ?_⟩
    · simpa using List.find?_some hm
    · simpa [hm] using h

/-- The first field of the given name in the message that a full name stands for. -/
def field? (s : Schema) (fullName name : String) : Option Field :=
  (s.fieldsOf fullName).find? (·.name = name)

/-- The messages that full names stand for, one for each name. -/
def registered (s : Schema) : List Message :=
  (s.messages.map (·.fullName)).eraseDups.filterMap s.message?

/-- The first method with the given full name. -/
def method? (s : Schema) (fullName : String) : Option Method :=
  s.methods.find? (·.fullName = fullName)

end Schema

end HttpTranscoding
