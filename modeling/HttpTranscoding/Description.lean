import HttpTranscoding.Binding.Basic
import HttpTranscoding.Text.Quoted
/-!
# Descriptions

One-line descriptions of the parts of a schema and of what is resolved against
it, for whoever inspects them: the kind of thing, and in parentheses what tells
it from others of its kind.
-/

namespace HttpTranscoding

/-- The message that a type refers to, or else the number of its kind, after a word for
what it holds many of. -/
def TypeRef.description (t : TypeRef) : String :=
  let held := (t.target.map (·.fullName)).getD (toString t.kind.number)
  let many := if t.isMap then "map " else if t.repeated then "repeated " else ""
  "TypeRef(" ++ many ++ held ++ ")"

def Field.description (f : Field) : String :=
  "Field(" ++ f.fullName ++ ": " ++ f.type.description ++ ")"

def Message.description (m : Message) : String :=
  "MessageType(" ++ m.fullName ++ ")"

def Method.description (m : Method) : String :=
  "Method(" ++ m.fullName ++ ")"

def FieldPath.description (p : FieldPath) : String :=
  "FieldSelector(" ++ p.text ++ ")"

/-- The name of a binding's kind; `none` is that of a kind that is no verb. -/
def Verb.kindName (verb? : Option Verb) : String :=
  (verb?.map (·.name)).getD "none"

def MethodBinding.description (method : Method) (b : MethodBinding) : String :=
  "HttpBinding(" ++ method.fullName ++ ", " ++ (Verb.kindName b.primary.verb?).toUpper ++ " " ++
    Text.quoted b.primary.path ++ ", body=" ++
    ((b.primary.body.text?.map Text.quoted).getD "None") ++ ")"

end HttpTranscoding
