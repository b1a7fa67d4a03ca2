import HttpTranscoding.Schema.Basic
import HttpTranscoding.Text.Blank
/-!
# Field paths

A field path leads from a message through fields of nested messages to its last
field; it is never empty. `FieldPath.resolve` reads the dotted notation of a rule,
in which blanks around a name do not count, and `FieldPath.text` writes it.

Paths are compared field by field, not by name. `FieldPath.covers` says that one
path is the other or leads towards it.
-/

namespace HttpTranscoding

/-- Why a dotted path leads nowhere. -/
inductive BindingError
  /-- `message` has no field that `element` names. -/
  | unknownField (element message path : String)
  /-- The path goes on after a field that holds no message. -/
  | notMessage (field path : String)
deriving DecidableEq

def BindingError.text : BindingError → String
  | unknownField element message path =>
    "No field '" ++ element ++ "' in message '" ++ message ++ "' (path '" ++ path ++ "')"
  | notMessage field path =>
    "Field path '" ++ path ++ "' continues past non-message field '" ++ field ++ "'"

@[ext]
structure FieldPath where
  fields : List Field
  ne_nil : fields ≠ []
deriving DecidableEq

namespace FieldPath

/-- The path through the given fields, if there are any. -/
def ofFields? (fields : List Field) : Option FieldPath :=
  if h : fields = [] then none else some ⟨fields, h⟩

def single (f : Field) : FieldPath :=
  ⟨[f], by simp⟩

/-- The path that goes through `f` first. -/
def cons (f : Field) (p : FieldPath) : FieldPath :=
  ⟨f :: p.fields, by simp⟩

/-- The field that the path leads to. -/
def last (p : FieldPath) : Field :=
  p.fields.getLast p.ne_nil

def type (p : FieldPath) : TypeRef :=
  p.last.type

/-- The path with one more field at its end. -/
def extend (p : FieldPath) (f : Field) : FieldPath :=
  ⟨p.fields ++ [f], by simp⟩

/-- Whether `p` leads towards `q`: it goes the same way and stops earlier. -/
def isStrictPrefixOf (p q : FieldPath) : Bool :=
  p.fields.length < q.fields.length && p.fields.isPrefixOf q.fields

/-- Whether `p` is `q` or leads towards it. -/
def covers (p q : FieldPath) : Bool :=
  p = q || p.isStrictPrefixOf q

theorem isStrictPrefixOf_iff {p q : FieldPath} :
    p.isStrictPrefixOf q ↔ p.fields <+: q.fields ∧ p ≠ q := by
  simp only [isStrictPrefixOf, Bool.and_eq_true, decide_eq_true_eq, List.isPrefixOf_iff_prefix]
  constructor
  · rintro ⟨hlt, hpre⟩
    exact ⟨hpre, fun e => by simp [e] at hlt⟩
  · rintro ⟨hpre, hne⟩
    refine ⟨Nat.lt_of_le_of_ne hpre.length_le fun e => hne ?_, hpre⟩
    exact FieldPath.ext (hpre.eq_of_length e)

theorem covers_iff {p q : FieldPath} : p.covers q ↔ p.fields <+: q.fields := by
  simp only [covers, Bool.or_eq_true, decide_eq_true_eq, isStrictPrefixOf_iff]
  constructor
  · rintro (rfl | ⟨hpre, -⟩)
    · exact List.prefix_rfl
    · exact hpre
  · intro hpre
    by_cases e : p = q
    · exact .inl e
    · exact .inr ⟨hpre, e⟩

/-- The names of the fields, joined by dots. -/
def text (p : FieldPath) : String :=
  ".".intercalate (p.fields.map (·.name))

/-- The elements of a dotted path, blanks and all. -/
def elements (path : String) : List String :=
  (path.toList.splitOn '.').map String.ofList

/-- Whether a dotted path consists of one element. -/
def isSingleElement (path : String) : Bool :=
  '.' ∉ path.toList

theorem elements_ne_nil (path : String) : elements path ≠ [] := by
  simp [elements]

/-- The field of a message that an element of `path` names. -/
def step (s : Schema) (path message element : String) : Except BindingError Field :=
  match s.field? message (Text.stripped element) with
  | some f => .ok f
  | none => .error (.unknownField element message path)

/-- The path from a message that goes through the field named `element` and from there
through the fields named by the rest. -/
def follow (s : Schema) (path message element : String) :
    List String → Except BindingError FieldPath
  | [] => (step s path message element).map single
  | next :: rest => do
    let f ← step s path message element
    match f.type.target with
    | none => .error (.notMessage f.name path)
    | some target => (follow s path target.fullName next rest).map (cons f)

/-- The path from a message that `path` writes in dotted notation. -/
def resolve (s : Schema) (message : MessageRef) (path : String) : Except BindingError FieldPath :=
  follow s path message.fullName ((elements path).head (elements_ne_nil path)) (elements path).tail

end FieldPath

end HttpTranscoding
