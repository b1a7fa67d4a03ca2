import HttpTranscoding.CommandLine.Arguments
/-!
# Usage

What the command line says about itself, laid out for 80 columns.
-/

namespace HttpTranscoding.CommandLine

def usage : String :=
  "usage: pbhttp-check [-h] [-I INCLUDES] [--descriptor-set DESCRIPTOR_SET]
                    [--target TARGETS]
                    [--allow-repeated-field ALLOWED_REPEATED] [--verbose]
                    [protos ...]
"

def help : String :=
  usage ++ "
Validate google.api.http bindings of protobuf RPC methods.

positional arguments:
  protos                .proto files to validate

options:
  -h, --help            show this help message and exit
  -I INCLUDES, --include INCLUDES
                        Include path for proto files (repeatable)
  --descriptor-set DESCRIPTOR_SET
                        Validate a prebuilt FileDescriptorSet instead of
                        compiling protos
  --target TARGETS      With --descriptor-set: only validate methods of this
                        file (repeatable)
  --allow-repeated-field ALLOWED_REPEATED
                        Full name of a repeated message field allowed in query
                        parameters (repeatable)
  --verbose             Verbose logging
"

/-- What is said of arguments that cannot be read. -/
def UsageError.report (e : UsageError) : String :=
  usage ++ "pbhttp-check: error: " ++ e.text ++ "\n"

end HttpTranscoding.CommandLine
