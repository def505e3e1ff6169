import ProfileTrace.Blocked
import ProfileTrace.CallTree
import ProfileTrace.Record

/-! The result of reading a trace: the tables of frames and of call tree nodes, the
samples in the order of their times, and the blocked periods if they were asked for. All
times are counted from the first sample. -/

namespace ProfileTrace

structure Sample where
  stack : StackId
  time : Seconds
  deriving DecidableEq, Repr

structure StackSource where
  frames : Array Frame
  nodes : Array StackNode
  samples : List Sample
  blocked : Option BlockedReport
  counts : RecordCounts

namespace StackSource

def frame? (source : StackSource) (id : FrameId) : Option Frame := source.frames[id.index]?

def node? (source : StackSource) (id : StackId) : Option StackNode :=
  id.index?.bind fun place => source.nodes[place]?

/-- The frames of a stack, the deepest first. Callers have smaller numbers than the nodes
they call, and a node for which this does not hold ends the walk. -/
def callStack (source : StackSource) (id : StackId) : List Frame :=
  match source.node? id with
  | none => []
  | some node =>
      (source.frame? node.frame).toList ++
        if _outward : 0 ≤ id.value ∧ node.caller.value < id.value then
          source.callStack node.caller
        else []
termination_by (id.value + 1).toNat
decreasing_by omega

def endTime (source : StackSource) : Seconds :=
  (source.samples.getLast?.map (·.time)).getD .zero

def blockedPeriods (source : StackSource) : List BlockedPeriod :=
  (source.blocked.map (·.periods)).getD []

def totalBlocked (source : StackSource) : Seconds :=
  (source.blocked.map (·.total)).getD .zero

/-- Samples in the order of their times, and those times counted from the first. Equal
times keep their order. -/
def arrange (samples : List Sample) : Seconds × List Sample :=
  let sorted := samples.mergeSort fun a b => a.time.totalLe b.time
  let origin := (sorted.head?.map (·.time)).getD .zero
  (origin, sorted.map fun sample => { sample with time := sample.time - origin })

end StackSource

end ProfileTrace
