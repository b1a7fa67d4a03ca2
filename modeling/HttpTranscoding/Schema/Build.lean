import HttpTranscoding.Schema.Basic
/-!
# Building a schema

Resolves the declarations of a complete set of files. Messages are collected in
the order of declaration, a message before those nested in it
(`FileDecl.declared`); then the type of every field is looked up, and after all
fields the input and output of every method of the target files
(`FileDecl.sites`). The first name that no message has ends the construction.
-/

namespace HttpTranscoding

/-- A name that the schema needs and no message has. -/
inductive SchemaError
  /-- The type of the field `message.field`. -/
  | unknownFieldType (message field typeName : String)
  /-- The input or output of a method. -/
  | unknownMethodType (method typeName : String)
  /-- A method was given no input or no output. -/
  | unresolvedMethod (method : String)
deriving DecidableEq

def SchemaError.text : SchemaError → String
  | unknownFieldType message field typeName =>
    "Field " ++ message ++ "." ++ field ++ " references unknown type " ++ typeName
  | unknownMethodType method typeName =>
    "Method " ++ method ++ " references unknown type " ++ typeName
  | unresolvedMethod method => "Method " ++ method ++ " has no resolved input or output type"

/-- A declared message under its full name, its fields still unresolved. -/
structure Declared where
  fullName : String
  file : String
  mapEntry : Bool
  fields : List FieldDecl

mutual
/-- The message that `d` declares in `scope`, followed by those nested in it. -/
def MessageDecl.declared (file scope : String) : MessageDecl → List Declared
  | ⟨name, mapEntry, fields, nested⟩ =>
    ⟨Name.qualify scope name, file, mapEntry, fields⟩ ::
      MessageDecl.declaredAll file (Name.qualify scope name) nested
/-- The messages that a list of declarations makes in `scope`. -/
def MessageDecl.declaredAll (file scope : String) : List MessageDecl → List Declared
  | [] => []
  | d :: ds => MessageDecl.declared file scope d ++ MessageDecl.declaredAll file scope ds
end

/-- The messages that a file declares. -/
def FileDecl.declared (f : FileDecl) : List Declared :=
  MessageDecl.declaredAll f.name f.package f.messages

namespace Declared

def ref (d : Declared) : MessageRef :=
  ⟨d.fullName, d.mapEntry⟩

/-- The message among `ds` that a reference stands for: the last of that name. -/
def lookup? (ds : List Declared) (reference : String) : Option MessageRef :=
  (ds.findRev? (·.fullName = Name.absolute reference)).map ref

/-- The type that a declared field has among the messages `ds`. -/
def fieldType (ds : List Declared) (message : String) (d : FieldDecl) :
    Except SchemaError TypeRef :=
  if d.kind.refersToMessage then
    match lookup? ds d.typeName with
    | some target => .ok ⟨d.kind, d.repeated, some target⟩
    | none => .error (.unknownFieldType message d.name d.typeName)
  else .ok ⟨d.kind, d.repeated, none⟩

/-- The fields of a message, from the declaration at `position` on. -/
def resolveFields (ds : List Declared) (message : String) :
    Nat → List FieldDecl → Except SchemaError (List Field)
  | _, [] => .ok []
  | position, d :: rest => do
    let type ← fieldType ds message d
    let fields ← resolveFields ds message (position + 1) rest
    return ⟨message, position, d.name, d.number, type⟩ :: fields

/-- The message with the types of its fields looked up among `ds`. -/
def resolve (ds : List Declared) (d : Declared) : Except SchemaError Message :=
  (resolveFields ds d.fullName 0 d.fields).map fun fields =>
    ⟨d.fullName, d.file, d.mapEntry, fields⟩

end Declared

/-- A declared method under its full name, with the place where it is declared. -/
structure MethodSite where
  fullName : String
  decl : MethodDecl
  location : Location

/-- Where the file says that the declaration at `path` stands: the first position with
that path and at least three numbers, which count from 0. -/
def FileDecl.locate (f : FileDecl) (path : List Int) (element : String) : Location :=
  match f.spans.find? fun s => s.path = path && 3 ≤ s.span.length with
  | some ⟨_, line :: column :: _⟩ => ⟨f.name, some (line + 1), some (column + 1), element⟩
  | _ => .ofElement f.name element

/-- The methods of the service at index `service` of a file. Services are field 6 of a
file and methods are field 2 of a service. -/
def ServiceDecl.sites (f : FileDecl) (service : Nat) (s : ServiceDecl) : List MethodSite :=
  s.methods.zipIdx.map fun (decl, index) =>
    let fullName := Name.qualify f.package s.name ++ "." ++ decl.name
    ⟨fullName, decl, f.locate [6, service, 2, index] fullName⟩

/-- The methods that a file declares. -/
def FileDecl.sites (f : FileDecl) : List MethodSite :=
  f.services.zipIdx.flatMap fun (s, service) => s.sites f service

/-- The method declared at a site, its input and output looked up among `ds`. -/
def MethodSite.resolve (ds : List Declared) (site : MethodSite) : Except SchemaError Method :=
  match Declared.lookup? ds site.decl.input, Declared.lookup? ds site.decl.output with
  | some input, some output => .ok ⟨site.fullName, input, output, site.decl.http, site.location⟩
  | none, _ => .error (.unknownMethodType site.fullName site.decl.input)
  | some _, none => .error (.unknownMethodType site.fullName site.decl.output)

/-- A method without an `http` option, if both its types are known. It stands where its
name says, unless a location is given. -/
def Method.plain (fullName : String) (input output : Option MessageRef)
    (location : Option Location) : Except SchemaError Method :=
  match input, output with
  | some input, some output =>
    .ok ⟨fullName, input, output, none, location.getD (.ofElement "" fullName)⟩
  | _, _ => .error (.unresolvedMethod fullName)

/-- The files whose methods are of interest: all, unless names are given. -/
def FileDecl.targets (files : List FileDecl) : Option (List String) → List FileDecl
  | none => files
  | some names => files.filter (·.name ∈ names)

/-- The schema of a complete set of files. -/
def Schema.build (files : List FileDecl) (targets : Option (List String)) :
    Except SchemaError Schema := do
  let declared := files.flatMap FileDecl.declared
  let messages ← declared.mapM (Declared.resolve declared)
  let wanted := FileDecl.targets files targets
  let methods ← (wanted.flatMap FileDecl.sites).mapM (MethodSite.resolve declared)
  return ⟨messages, methods, wanted.map (·.name)⟩

end HttpTranscoding
