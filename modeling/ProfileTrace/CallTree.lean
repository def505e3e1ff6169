import ProfileTrace.CallTree.Table
import ProfileTrace.Frame

/-! The call tree that all stacks of a trace share. A node is a frame under a caller, so
that stacks with common frames at the root have common nodes, and one number stands for a
whole stack. Frames and nodes are numbered in the order in which they are first met. -/

namespace ProfileTrace

structure FrameId where
  index : Nat
  deriving DecidableEq, Repr, Hashable

/-- The number of a stack: that of its deepest node, or a negative one. -/
structure StackId where
  value : Int
  deriving DecidableEq, Repr, Hashable

namespace FrameId

def label (id : FrameId) : String := "Frame#" ++ toString id.index

end FrameId

namespace StackId

def root : StackId := ⟨-1⟩

def isNode (id : StackId) : Bool := 0 ≤ id.value

def index? (id : StackId) : Option Nat := if id.isNode then some id.value.toNat else none

def label (id : StackId) : String := "Stack#" ++ toString id.value

end StackId

structure StackNode where
  frame : FrameId
  caller : StackId
  deriving DecidableEq, Repr, Hashable

/-- The caller and the frame in one number of 64 bits, the caller in the upper half. -/
def StackNode.packed (node : StackNode) : Int :=
  node.caller.value * 0x100000000 + node.frame.index

structure CallTree where
  frames : Table Frame.displayKey := .empty
  nodes : Table StackNode.packed := .empty

namespace CallTree

def internFrame (frame : Frame) (tree : CallTree) : FrameId × CallTree :=
  let (place, frames) := tree.frames.insert frame
  (⟨place % 0x100000000⟩, { tree with frames })

def internNode (frame : FrameId) (caller : StackId) (tree : CallTree) : StackId × CallTree :=
  let (place, nodes) := tree.nodes.insert { frame, caller }
  (⟨Int.bmod place 0x100000000⟩, { tree with nodes })

/-- The number of a stack under `start`, whose deepest frame comes first: its nodes are
made from the last frame to the first. -/
def internStack (frames : List Frame) (start : StackId) (tree : CallTree) :
    StackId × CallTree :=
  frames.foldr
    (fun frame (caller, tree) =>
      let (id, tree) := internFrame frame tree
      internNode id caller tree)
    (start, tree)

def frame? (tree : CallTree) (id : FrameId) : Option Frame := tree.frames.entries[id.index]?

def node? (tree : CallTree) (id : StackId) : Option StackNode :=
  id.index?.bind fun place => tree.nodes.entries[place]?

end CallTree

end ProfileTrace
