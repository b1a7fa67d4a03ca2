import HttpTranscoding.Diagnostic.Location
/-!
# Diagnostics

One violated rule at one location. A diagnostic keeps the kind of rule beside
its message, so that a reader need not search the text for it.
-/

namespace HttpTranscoding

inductive Severity
  | error | warning
deriving DecidableEq

def Severity.text : Severity → String
  | error => "error"
  | warning => "warning"

/-- The rules that a binding can violate. -/
inductive DiagnosticKind
  | mapNotAllowedAsParam
  | repeatedMessageNotAllowedAsParam
  | cyclicParamReference
  | mapOrRepeatedOrDisallowedMessageOnPath
  | overlappingPathSelectors
  | bodyMustBeTopLevelField
  | bodyMustBeNonRepeatedAllowedMessage
  | responseNotJsonRenderable
  | additionalBindingHasNestedBindings
  | additionalBindingHasSelector
deriving DecidableEq

namespace DiagnosticKind

def all : List DiagnosticKind :=
  [mapNotAllowedAsParam, repeatedMessageNotAllowedAsParam, cyclicParamReference,
    mapOrRepeatedOrDisallowedMessageOnPath, overlappingPathSelectors, bodyMustBeTopLevelField,
    bodyMustBeNonRepeatedAllowedMessage, responseNotJsonRenderable,
    additionalBindingHasNestedBindings, additionalBindingHasSelector]

/-- The name that reports give the kind. -/
def name : DiagnosticKind → String
  | mapNotAllowedAsParam => "MapNotAllowedAsParam"
  | repeatedMessageNotAllowedAsParam => "RepeatedMessageNotAllowedAsParam"
  | cyclicParamReference => "CyclicParamReference"
  | mapOrRepeatedOrDisallowedMessageOnPath => "MapOrRepeatedOrDisallowedMessageOnPath"
  | overlappingPathSelectors => "OverlappingPathSelectors"
  | bodyMustBeTopLevelField => "BodyMustBeTopLevelField"
  | bodyMustBeNonRepeatedAllowedMessage => "BodyMustBeNonRepeatedAllowedMessage"
  | responseNotJsonRenderable => "ResponseNotJsonRenderable"
  | additionalBindingHasNestedBindings => "AdditionalBindingHasNestedBindings"
  | additionalBindingHasSelector => "AdditionalBindingHasSelector"

end DiagnosticKind

structure Diagnostic where
  kind : DiagnosticKind
  severity : Severity
  location : Location
  message : String
deriving DecidableEq

/-- The line that reports show for a diagnostic. -/
def Diagnostic.text (d : Diagnostic) : String :=
  d.location.text ++ ": " ++ d.severity.text ++ ": " ++ d.message

end HttpTranscoding
