import HttpTranscoding.Descriptor.Wire
import HttpTranscoding.Schema.Declaration
/-!
# File sets

Reads the declarations of compiled files out of a stored file set. The number of
each field is that of the descriptor format; fields that no declaration needs are
passed over. Nothing is read of a set that is not well-formed, that nests messages
or rules deeper than `maxDepth`, or that holds a text which is not UTF-8.
-/

namespace HttpTranscoding

/-- The field of a method's options that holds its `http` option. -/
def httpOptionField : Nat :=
  72295728

/-- How deep messages and rules may be nested in a stored file set. -/
def maxDepth : Nat :=
  100

/-- The verb whose path template is in the given field of a rule. -/
def Verb.ofField? : Nat → Option Verb
  | 2 => some .get
  | 3 => some .put
  | 4 => some .post
  | 5 => some .delete
  | 6 => some .patch
  | _ => none

/-- The message that a field holds, taken apart. -/
def Wire.message? (entries : List Wire.Entry) (field : Nat) : Option (List Wire.Entry) :=
  Wire.entries? (Wire.contents entries field).flatten

namespace Pattern

/-- Whether a field of a rule gives its pattern. -/
def isField (field : Nat) : Bool :=
  (Verb.ofField? field).isSome || field == 8

/-- The pattern that the entries of a rule give; the last one counts. -/
def ofEntries? (entries : List Wire.Entry) : Option (Option Pattern) :=
  match (entries.filter fun e => isField e.field).getLast? with
  | none => some none
  | some e =>
    match Verb.ofField? e.field with
    | some verb => do
      let path ← Wire.text? entries e.field
      return some (.standard verb path)
    | none => do
      let custom ← Wire.message? entries e.field
      let kind ← Wire.text? custom 1
      let path ← Wire.text? custom 2
      return some (.custom kind path)

end Pattern

def HttpRule.ofBytes? : Nat → List UInt8 → Option HttpRule
  | 0, _ => none
  | depth + 1, bytes => do
    let entries ← Wire.entries? bytes
    let pattern ← Pattern.ofEntries? entries
    let body ← Wire.text? entries 7
    let selector ← Wire.text? entries 1
    let additional ← (Wire.contents entries 11).mapM (HttpRule.ofBytes? depth)
    return ⟨pattern, body, selector, additional⟩

namespace FieldKind

/-- The kind with the given number; a number that no kind has stands for the first kind. -/
def ofNumber (n : Int) : FieldKind :=
  (all.find? (·.number = n)).getD double

end FieldKind

def FieldDecl.ofBytes? (bytes : List UInt8) : Option FieldDecl := do
  let entries ← Wire.entries? bytes
  let name ← Wire.text? entries 1
  let typeName ← Wire.text? entries 6
  return ⟨name, Wire.int entries 3 0, .ofNumber (Wire.int entries 5 1),
    Wire.int entries 4 1 = 3, typeName⟩

def MessageDecl.ofBytes? : Nat → List UInt8 → Option MessageDecl
  | 0, _ => none
  | depth + 1, bytes => do
    let entries ← Wire.entries? bytes
    let name ← Wire.text? entries 1
    let options ← Wire.message? entries 7
    let fields ← (Wire.contents entries 2).mapM FieldDecl.ofBytes?
    let nested ← (Wire.contents entries 3).mapM (MessageDecl.ofBytes? depth)
    return ⟨name, Wire.int options 7 0 ≠ 0, fields, nested⟩

/-- The `http` option among the options of a method. -/
def HttpRule.ofOptions? (options : List Wire.Entry) : Option (Option HttpRule) :=
  match Wire.contents options httpOptionField with
  | [] => some none
  | parts => (HttpRule.ofBytes? maxDepth parts.flatten).map some

def MethodDecl.ofBytes? (bytes : List UInt8) : Option MethodDecl := do
  let entries ← Wire.entries? bytes
  let name ← Wire.text? entries 1
  let input ← Wire.text? entries 2
  let output ← Wire.text? entries 3
  let options ← Wire.message? entries 4
  let http ← HttpRule.ofOptions? options
  return ⟨name, input, output, http⟩

def ServiceDecl.ofBytes? (bytes : List UInt8) : Option ServiceDecl := do
  let entries ← Wire.entries? bytes
  let name ← Wire.text? entries 1
  let methods ← (Wire.contents entries 2).mapM MethodDecl.ofBytes?
  return ⟨name, methods⟩

def SourceSpan.ofBytes? (bytes : List UInt8) : Option SourceSpan := do
  let entries ← Wire.entries? bytes
  let path ← Wire.ints? entries 1
  let span ← Wire.ints? entries 2
  return ⟨path, span⟩

def FileDecl.ofBytes? (bytes : List UInt8) : Option FileDecl := do
  let entries ← Wire.entries? bytes
  let name ← Wire.text? entries 1
  let package ← Wire.text? entries 2
  let source ← Wire.message? entries 9
  let messages ← (Wire.contents entries 4).mapM (MessageDecl.ofBytes? maxDepth)
  let services ← (Wire.contents entries 6).mapM ServiceDecl.ofBytes?
  let spans ← (Wire.contents source 1).mapM SourceSpan.ofBytes?
  return ⟨name, package, messages, services, spans⟩

/-- The files of a stored file set. -/
def FileDecl.ofFileSet? (bytes : List UInt8) : Option (List FileDecl) := do
  let entries ← Wire.entries? bytes
  (Wire.contents entries 1).mapM FileDecl.ofBytes?

end HttpTranscoding
