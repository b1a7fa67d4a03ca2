import HttpTranscoding.Diagnostic.Basic
import HttpTranscoding.Diagnostic.Template
/-!
# Reporters

A reporter is the list of the diagnostics recorded so far, oldest first. It is
only ever extended at its end or emptied, and recording a diagnostic never
stops anything: who reads the reporter afterwards decides what follows from it.
-/

namespace HttpTranscoding

structure Reporter where
  diagnostics : List Diagnostic
deriving DecidableEq

namespace Reporter

def empty : Reporter :=
  ⟨[]⟩

/-- The reporter with `found` recorded after what it holds. -/
def append (r : Reporter) (found : List Diagnostic) : Reporter :=
  ⟨r.diagnostics ++ found⟩

def report (r : Reporter) (d : Diagnostic) : Reporter :=
  r.append [d]

/-- Records an error whose message is a template filled with arguments, or
nothing at all if the template and the arguments do not fit. -/
def error (r : Reporter) (location : Location) (kind : DiagnosticKind) (template : String)
    (args : List Template.Argument) : Except Template.FillError (Diagnostic × Reporter) :=
  (Template.instantiate template args).map fun message =>
    let d : Diagnostic := ⟨kind, .error, location, message⟩
    (d, r.report d)

def errors (r : Reporter) : List Diagnostic :=
  r.diagnostics.filter (·.severity = .error)

def errorCount (r : Reporter) : Nat :=
  r.errors.length

def hasErrors (r : Reporter) : Bool :=
  0 < r.errorCount

def ofKind (r : Reporter) (kind : DiagnosticKind) : List Diagnostic :=
  r.diagnostics.filter (·.kind = kind)

/-- The diagnostics in order, one on a line, with no line end after the last. -/
def text (r : Reporter) : String :=
  "\n".intercalate (r.diagnostics.map (·.text))

/-- 0 if no error was recorded, else 1. -/
def exitCode (r : Reporter) : Nat :=
  if r.hasErrors then 1 else 0

end Reporter

end HttpTranscoding
