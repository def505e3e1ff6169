import ProfileTrace.CommandLine.Arguments
import ProfileTrace.Document
import ProfileTrace.Input
import ProfileTrace.NameFilter.Reading

/-! The program: it reads a trace, prints a summary, and writes the document. -/

namespace ProfileTrace.Program

structure Outcome where
  code : Nat
  output : String
  complaint : Option String

def helpText : String :=
"Parse perf script dumps into interned call stacks

Usage: perfscript [OPTIONS] <INPUT> [FILTER]

Arguments:
  <INPUT>   Input file (.data.txt, .data.dump or .trace.zip)
  [FILTER]  Regex applied to event names; non-matching records are skipped

Options:
      --thread-time         Derive blocked time from sched_switch events (single worker)
  -w, --workers <WORKERS>   Parser worker threads [default: 4]
      --buffer-len <BYTES>  Read buffer length in bytes (minimum 512) [default: 16384]
      --max-samples <N>     Stop after N samples
      --export <FILE>       Write the stack source as JSON (default: <INPUT>.stacks.json)
  -q, --quiet               Suppress non-essential output
  -h, --help                Print help

EXAMPLES:
    perfscript perf.data.txt                        Parse every event
    perfscript perf.data.txt '^cycles$'             Keep only cycles samples
    perfscript trace.trace.zip --thread-time        Blocked/CPU stacks and blocked time
    perfscript perf.data.dump --export stacks.json  Choose the JSON output path
"

def complaintOf : UsageError → String
  | .missingRequiredArgument => "error: the following required arguments were not provided: <INPUT>"
  | .unknownArgument => "error: unexpected argument found"
  | .invalidValue => "error: a value is required but none was supplied"
  | .valueValidation => "error: invalid value for an option"
  | .argumentConflict => "error: an argument cannot be used multiple times"
  | .tooManyValues => "error: unexpected value for a flag"
  | .displayHelp => ""

def optionsOf (arguments : Arguments) : Except TraceError Options := do
  let filter ←
    match arguments.filter with
    | none => .ok none
    | some text =>
        match NameFilter.pattern? text with
        | some pattern => .ok (some pattern)
        | none => .error (.invalidFilter text)
  return {
    filter
    threadTime := arguments.threadTime
    workers := arguments.workers
    windowLength := arguments.windowLength
    maxSamples := arguments.maxSamples }

def decimal (s : Seconds) : String := String.ofList (s.fixedChars 6)

/-- The lines of the summary; counts of what was left out or cut short appear only when
there are any. -/
def summary (arguments : Arguments) (source : StackSource) : List String :=
  ["Input:    " ++ arguments.input,
    "Samples:  " ++ toString source.samples.length,
    "Frames:   " ++ toString source.frames.size,
    "Stacks:   " ++ toString source.nodes.size,
    "Duration: " ++ decimal source.endTime ++ " s"] ++
  (if 0 < source.counts.filtered then
    ["Filtered: " ++ toString source.counts.filtered] else []) ++
  (if 0 < source.counts.truncated then
    ["Truncated samples: " ++ toString source.counts.truncated] else []) ++
  (if arguments.threadTime then
    ["Blocked:  " ++ decimal source.totalBlocked ++ " s over " ++
      toString source.blockedPeriods.length ++ " periods"] else [])

def unlines (lines : List String) : String := String.join (lines.map (· ++ "\n"))

/-- The exit code of a failure: two for what the caller got wrong, and else one. -/
def codeOf : TraceError → Nat
  | .unsupportedInput _ | .invalidFilter _ => 2
  | _ => 1

def failure (error : TraceError) : Outcome where
  code := codeOf error
  output := ""
  complaint := some ("error: " ++ error.message)

def finish {m : Type → Type} [Monad m] (files : Files m) (arguments : Arguments)
    (source : StackSource) : m Outcome := do
  let shown (lines : List String) : List String := if arguments.quiet then [] else lines
  let path := arguments.exportPath
  let lines := shown (summary arguments source)
  if ← files.write path (Document.text source false) then
    return { code := 0, output := unlines (lines ++ shown ["Wrote " ++ path]), complaint := none }
  else
    return { code := 1, output := unlines lines, complaint := some ("error: Failed to write " ++ path) }

def runWith {m : Type → Type} [Monad m] (files : Files m) (arguments : Arguments) : m Outcome := do
  match optionsOf arguments with
  | .error error => return failure error
  | .ok options =>
      match ← Input.read files options arguments.input with
      | .error error => return failure error
      | .ok source => finish files arguments source

def run {m : Type → Type} [Monad m] (files : Files m) (texts : List String) : m Outcome := do
  match Arguments.read texts with
  | .ok arguments => runWith files arguments
  | .error .displayHelp => return { code := 0, output := helpText, complaint := none }
  | .error error => return { code := 2, output := "", complaint := some (complaintOf error) }

end ProfileTrace.Program
