import ProfileTrace.Reader

/-! What can go wrong outside a trace. Nothing inside a trace is an error: what cannot be
read there counts as absent. -/

namespace ProfileTrace

inductive TraceError where
  /-- The name of the input says that it is no trace. -/
  | unsupportedInput (path : String)
  | missingArchiveEntry (path : String)
  | invalidFilter (pattern : String)
  | io
  /-- A file that is no archive, or one of a kind that is not understood. -/
  | archive
  deriving DecidableEq, Repr

def TraceError.message : TraceError → String
  | .unsupportedInput path =>
      "Not a valid input file: " ++ path ++ " (expected .data.dump, .data.txt or .trace.zip)"
  | .missingArchiveEntry path =>
      "No .data.dump or .data.txt entry found in archive " ++ path
  | .invalidFilter pattern => "Invalid event filter: " ++ pattern
  | .io => "the input cannot be read"
  | .archive => "the input is not a valid archive"

end ProfileTrace
