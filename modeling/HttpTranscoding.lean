import HttpTranscoding.Description
import HttpTranscoding.Main
import HttpTranscoding.Proofs.Binding.Clean
import HttpTranscoding.Proofs.Validator.Run
import HttpTranscoding.Proofs.Query.Comparison
import HttpTranscoding.Proofs.Validator.Additional
import HttpTranscoding.Proofs.CommandLine.Report
import HttpTranscoding.Proofs.Validator.Allowed
import HttpTranscoding.Proofs.Query.BoundValues
import HttpTranscoding.Proofs.Validator.Calls
import HttpTranscoding.Proofs.Schema.Targets
import HttpTranscoding.Proofs.Schema.Order
import HttpTranscoding.Proofs.Query.Chains
import HttpTranscoding.Proofs.Path.VariableOrder
import HttpTranscoding.Proofs.Validator.Verbs
import HttpTranscoding.Proofs.Compilation.Targets
import HttpTranscoding.Proofs.Binding.LeftOver
import HttpTranscoding.Proofs.FieldPath.Text
import HttpTranscoding.Proofs.Query.Expansion
import HttpTranscoding.Proofs.Path.OverlapReport
import HttpTranscoding.Proofs.PathTemplate.Grammar
import HttpTranscoding.Proofs.PathTemplate.Scanning
import HttpTranscoding.Proofs.Text.Pieces
import HttpTranscoding.Proofs.PathTemplate.Rendering
import HttpTranscoding.Proofs.FieldPath.Composition
import HttpTranscoding.Proofs.FieldPath.RoundTrip
import HttpTranscoding.Proofs.Validator.BodyReport
import HttpTranscoding.Proofs.CommandLine.Flags
import HttpTranscoding.Proofs.CommandLine.AllowedFields
