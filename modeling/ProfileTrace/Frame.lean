/-! Frames: the named entries of a call stack. Frames with one display key are one
frame as far as the call tree is concerned, whatever their addresses. -/

namespace ProfileTrace

inductive ThreadState where
  | blocked
  | cpu
  deriving DecidableEq, Repr

def ThreadState.name : ThreadState → String
  | .blocked => "Blocked"
  | .cpu => "CPU"

inductive Frame where
  /-- A code location, with its address as it was printed. -/
  | code (address module symbol : String)
  /-- A thread when it has a number, and otherwise a process. -/
  | task (id : Option Int) (name : String)
  /-- The state of a thread, in stacks that tell running from blocked time. -/
  | state (activity : ThreadState)
  deriving DecidableEq, Repr

namespace Frame

def thread (tid : Int) : Frame := .task (some tid) "Thread"

def process (command : String) : Frame := .task none command

/-- The name shown for a frame, by which frames are told apart. -/
def displayKey : Frame → String
  | .code _ module symbol => module ++ "!" ++ symbol
  | .task (some id) name => name ++ " (" ++ toString id ++ ")"
  | .task none name => name
  | .state activity => activity.name

end Frame

end ProfileTrace
