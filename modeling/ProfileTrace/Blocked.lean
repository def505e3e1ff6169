import ProfileTrace.Event
import Std.Data.TreeMap

/-! The time that threads spend blocked. A thread is blocked from the switch that takes
its processor away until a switch gives it one, until another thread is seen on the
processor where it ran last, or until the trace ends. -/

namespace ProfileTrace

inductive PeriodEnd where
  | explicit
  /-- Another thread on the processor where the thread was seen last. -/
  | induced
  | flushed
  deriving DecidableEq, Repr

def PeriodEnd.name : PeriodEnd → String
  | .explicit => "Explicit"
  | .induced => "Induced"
  | .flushed => "Flushed"

structure BlockedPeriod where
  tid : Int
  start : Seconds
  finish : Seconds
  reason : PeriodEnd
  deriving DecidableEq, Repr

namespace BlockedPeriod

def duration (period : BlockedPeriod) : Seconds := period.finish - period.start

def rebase (origin : Seconds) (period : BlockedPeriod) : BlockedPeriod :=
  { period with start := period.start - origin, finish := period.finish - origin }

end BlockedPeriod

structure BlockedReport where
  periods : List BlockedPeriod
  deriving DecidableEq, Repr

namespace BlockedReport

def total (report : BlockedReport) : Seconds :=
  Seconds.sum (report.periods.map BlockedPeriod.duration)

def rebase (origin : Seconds) (report : BlockedReport) : BlockedReport :=
  ⟨report.periods.map (BlockedPeriod.rebase origin)⟩

end BlockedReport

structure ThreadStates where
  /-- The blocked threads, each with the time since when. -/
  blocked : Std.TreeMap Int Seconds := ∅
  running : Std.TreeMap Int Int := ∅
  /-- The periods that have ended, in the order of their ends. -/
  ended : Array BlockedPeriod := #[]
  last : Option Seconds := none

namespace ThreadStates

def unblock (tid : Int) (time : Seconds) (reason : PeriodEnd) (states : ThreadStates) :
    ThreadStates :=
  match states.blocked[tid]? with
  | some start =>
      { states with
        blocked := states.blocked.erase tid
        ended := states.ended.push { tid, start, finish := time, reason } }
  | none => states

def block (tid : Int) (time : Seconds) (states : ThreadStates) : ThreadStates :=
  { states with blocked := states.blocked.insertIfNew tid time }

def seeTime (time : Seconds) (states : ThreadStates) : ThreadStates :=
  { states with last := some ((states.last.map (·.latest time)).getD time) }

def seeThread (cpu tid : Int) (states : ThreadStates) : ThreadStates :=
  if isPresent cpu then { states with running := states.running.insert cpu tid } else states

def displace (cpu tid : Int) (time : Seconds) (states : ThreadStates) : ThreadStates :=
  match states.running[cpu]? with
  | some previous => if previous = tid then states else states.unblock previous time .induced
  | none => states

/-- The states after one more event. A switch unblocks before it blocks. -/
def observe (event : Event) (states : ThreadStates) : ThreadStates :=
  let states := states.seeTime event.time
  let states :=
    match event.kind, event.switch with
    | .scheduler, some switch =>
        (states.unblock switch.nextTid event.time .explicit).block switch.previousTid event.time
    | _, _ => states.displace event.cpu event.tid event.time
  states.seeThread event.cpu event.tid

def stateOf (states : ThreadStates) (tid : Int) : ThreadState :=
  if states.blocked.contains tid then .blocked else .cpu

/-- The report at the end of the trace: the threads still blocked are so until the latest
time, in the order of their numbers after the periods that ended before. -/
def report (states : ThreadStates) : BlockedReport :=
  let finish := states.last.getD .zero
  let flushed := states.blocked.toList.map fun (tid, start) =>
    { tid, start, finish, reason := .flushed : BlockedPeriod }
  ⟨(states.ended.toList ++ flushed).mergeSort fun a b => a.start.totalLe b.start⟩

end ThreadStates

end ProfileTrace
