import ProfileTrace.Frame
import ProfileTrace.Seconds.Basic
import ProfileTrace.Switch

/-! Events: what one record of a trace says. -/

namespace ProfileTrace

inductive EventKind where
  | cpu
  | scheduler
  deriving DecidableEq, Repr

structure Event where
  kind : EventKind := .cpu
  command : String := ""
  pid : Int := Cursor.absent
  tid : Int := Cursor.absent
  cpu : Int := Cursor.absent
  /-- The time as printed, and minus one when it cannot be read. -/
  time : Seconds := .minusOne
  timeProperty : Int := Cursor.absent
  name : String := ""
  details : String := ""
  /-- The deepest frame first; of a record, the thread and the process come last. -/
  frames : List Frame := []
  switch : Option Switch := none
  truncated : Bool := false
  deriving DecidableEq, Repr

inductive Numbered where
  | process
  | thread
  | processor
  deriving DecidableEq, Repr

/-- A number as it is shown where nothing else says what it stands for. -/
def Numbered.label (what : Numbered) (number : Int) : String :=
  (match what with | .process => "PID:" | .thread => "TID:" | .processor => "CPU:") ++
    toString number

/-- Numbers of threads, processes and processors are never negative. -/
def isPresent (number : Int) : Bool := 0 ≤ number

namespace Event

def rootFrames (event : Event) : List Frame :=
  event.frames.drop (event.frames.length - 2)

def codeFrameCount (event : Event) : Nat := event.frames.length - 2

end Event

structure RecordCounts where
  records : Nat := 0
  /-- Records that the name filter refused. -/
  filtered : Nat := 0
  truncated : Nat := 0
  deriving DecidableEq, Repr

def RecordCounts.merge (a b : RecordCounts) : RecordCounts where
  records := a.records + b.records
  filtered := a.filtered + b.filtered
  truncated := a.truncated + b.truncated

end ProfileTrace
