import ProfileTrace.Document.Json
import ProfileTrace.Seconds.Format
import ProfileTrace.StackSource

/-! The exported document of a stack source: its frames by name, its call tree nodes, its
samples, the total of blocked time, and the blocked periods if there are any. Rows of
the first three tables carry their places as numbers, those of frames in 32 bits and those
of nodes in 32 bits with a sign. -/

namespace ProfileTrace.Document

def ofNat (n : Nat) : Scalar := .number (Seconds.digitChars n)

def ofInt (n : Int) : Scalar :=
  .number (Seconds.signChars (n < 0) ++ Seconds.digitChars n.natAbs)

/-- Times by their fewest digits; what is not finite has no number. -/
def ofSeconds (s : Seconds) : Scalar :=
  if s.isFinite then .number s.shortestChars else .null

def frameRow (frame : Frame) (place : Nat) : Row :=
  [("id", ofNat (place % 0x100000000)), ("name", .text frame.displayKey)]

def nodeRow (node : StackNode) (place : Nat) : Row :=
  [("id", ofInt (Int.bmod place 0x100000000)), ("caller", ofInt node.caller.value),
    ("frame", ofNat node.frame.index)]

def sampleRow (sample : Sample) (place : Nat) : Row :=
  [("id", ofNat place), ("time", ofSeconds sample.time), ("stack", ofInt sample.stack.value)]

def periodRow (period : BlockedPeriod) : Row :=
  [("tid", ofInt period.tid), ("start", ofSeconds period.start),
    ("end", ofSeconds period.finish), ("end_reason", .text period.reason.name)]

def tables (source : StackSource) : JsonTables :=
  let periods := source.blockedPeriods
  [("frames", .rows (source.frames.toList.zipIdx.map fun (frame, place) => frameRow frame place)),
    ("stacks", .rows (source.nodes.toList.zipIdx.map fun (node, place) => nodeRow node place)),
    ("samples", .rows (source.samples.zipIdx.map fun (sample, place) => sampleRow sample place)),
    ("totalBlockedTime", .scalar (ofSeconds source.totalBlocked))] ++
    if periods.isEmpty then [] else [("blockedPeriods", .rows (periods.map periodRow))]

def text (source : StackSource) (pretty : Bool) : String :=
  Json.ofTables (if pretty then Json.pretty else Json.compact) (tables source)

def textWithin? (room : Nat) (source : StackSource) (pretty : Bool) : Option String :=
  if (text source pretty).utf8ByteSize ≤ room then some (text source pretty) else none

end ProfileTrace.Document
