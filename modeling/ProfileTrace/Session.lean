import ProfileTrace.NameFilter.Spans
import ProfileTrace.Pool
import ProfileTrace.StackSource

/-! Reading a trace from beginning to end: a pool of workers takes chunks of it, reads
their records, puts the stacks into one call tree, and keeps the samples. For blocked
time the events have to come in the order of the trace, so that only one worker is used,
and stacks show the state of the thread in place of its code. -/

namespace ProfileTrace

structure Options where
  /-- Events whose name it is not found in are left out. -/
  filter : Option Pattern := none
  threadTime : Bool := false
  workers : Nat := 4
  windowLength : Nat := defaultCapacity
  /-- No more samples than this are kept. -/
  maxSamples : Option Nat := none

namespace Options

def effectiveWorkers (options : Options) : Nat :=
  if options.threadTime then 1 else max options.workers 1

def accepts (options : Options) (name : String) : Bool :=
  options.filter.all (·.isFoundIn name)

def isFull (options : Options) (accepted : Nat) : Bool :=
  options.maxSamples.any (· ≤ accepted)

end Options

namespace Session

structure Shared where
  tree : CallTree := {}
  accepted : Nat := 0

/-- What a worker keeps for itself: its samples, the latest first, the counts of its
records, and the states of the threads for blocked time. -/
structure Output where
  samples : List Sample := []
  counts : RecordCounts := {}
  states : Option ThreadStates := none

/-- The states after an event, and the frames of its sample: its own, or for blocked time
the state of the thread with the thread and the process. -/
def framesOf (event : Event) (states : Option ThreadStates) :
    List Frame × Option ThreadStates :=
  match states with
  | none => (event.frames, none)
  | some states =>
      let states := states.observe event
      (.state (states.stateOf event.tid) :: event.rootFrames, some states)

def keep (event : Event) (shared : Shared) (output : Output) : Shared × Output :=
  let (frames, states) := framesOf event output.states
  let (stack, tree) := shared.tree.internStack frames .root
  ({ tree, accepted := shared.accepted + 1 },
    { output with samples := { stack, time := event.time } :: output.samples, states })

/-- Takes the records of a chunk up to the one that no more samples may be kept for. That
one still counts as read. -/
def takeRecords (options : Options) : List Record → Shared → Output → Flow × Shared × Output
  | [], shared, output => (.goOn, shared, output)
  | record :: records, shared, output =>
      let output := { output with counts := output.counts.merge record.counts }
      match record.event? with
      | none => takeRecords options records shared output
      | some event =>
          if options.isFull shared.accepted then (.stop, shared, output)
          else
            let (shared, output) := keep event shared output
            takeRecords options records shared output

def job (options : Options) : Job Shared Output := fun chunk shared output =>
  takeRecords options (Record.ofText options.accepts chunk.bytes) shared output

def pool (options : Options) (reader : Reader) : Pool Shared Output :=
  Pool.start (Feed.ofReader reader options.windowLength) {} options.effectiveWorkers
    fun _ => { states := if options.threadTime then some {} else none }

def gather (pool : Pool Shared Output) : StackSource :=
  let outputs := pool.states
  let (origin, samples) := StackSource.arrange (outputs.flatMap fun output => output.samples.reverse)
  { frames := pool.shared.tree.frames.entries
    nodes := pool.shared.tree.nodes.entries
    samples
    blocked := (outputs.findSome? (·.states)).map fun states => states.report.rebase origin
    counts := outputs.foldl (fun total output => total.merge output.counts) {} }

/-- Reads a trace. A fault of its source makes the result worthless, and is all there is
then. -/
def read (options : Options) (reader : Reader) : Except Fault StackSource :=
  let finished := (pool options reader).run (job options)
  match finished.feed.cursor.fault with
  | some fault => .error fault
  | none => .ok (gather finished)

end Session

end ProfileTrace
