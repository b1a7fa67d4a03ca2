/-!
# HTTP rules

The `google.api.http` option of a method as it is declared: a pattern that gives
a verb and a path template, the request body, a selector, and further rules for
the same method. Nothing is resolved here; names stand as they were written.
-/

namespace HttpTranscoding

/-- The HTTP methods whose request and response bodies have a meaning of their own. -/
inductive Verb
  | get | put | post | delete | patch
deriving DecidableEq

namespace Verb

def all : List Verb :=
  [get, put, post, delete, patch]

def name : Verb → String
  | get => "get"
  | put => "put"
  | post => "post"
  | delete => "delete"
  | patch => "patch"

/-- The verb that `text` names, whatever the case of its letters. It is enough to
lower the ASCII letters: no other letter has one of a verb's letters as its lower case. -/
def ofText? (text : String) : Option Verb :=
  all.find? fun v => v.name.toList == text.toList.map Char.toLower

end Verb

/-- What a rule matches requests by: a verb, or a method kind of the author's own. -/
inductive Pattern
  | standard (verb : Verb) (path : String)
  | custom (kind path : String)

/-- The verb of a pattern, if its kind is that of a verb. -/
def Pattern.verb? : Pattern → Option Verb
  | standard verb _ => some verb
  | custom kind _ => Verb.ofText? kind

def Pattern.path : Pattern → String
  | standard _ path => path
  | custom _ path => path

/-- The request body that a binding declares. -/
inductive RequestBody
  /-- There is no body. -/
  | absent
  /-- Every field that the path leaves unbound goes into the body. -/
  | unbound
  /-- The field at the given path is the body. -/
  | field (path : String)
deriving DecidableEq

namespace RequestBody

/-- The body that a text names where it is present, be it empty. -/
def named (text : String) : RequestBody :=
  if text = "*" then unbound else field text

/-- The body that a rule's text declares: an empty text declares none. -/
def declared (text : String) : RequestBody :=
  if text = "" then absent else named text

def text? : RequestBody → Option String
  | absent => none
  | unbound => some "*"
  | field path => some path

end RequestBody

/-- An `http` option, or a rule among the additional bindings of one. -/
structure HttpRule where
  pattern : Option Pattern
  body : String
  selector : String
  additional : List HttpRule

namespace HttpRule

/-- The verb of a rule; a rule without one is exempt from what concerns bodies. -/
def verb? (rule : HttpRule) : Option Verb :=
  rule.pattern.bind (·.verb?)

/-- The path template of a rule, empty if it has no pattern. -/
def template (rule : HttpRule) : String :=
  (rule.pattern.map (·.path)).getD ""

end HttpRule

end HttpTranscoding
