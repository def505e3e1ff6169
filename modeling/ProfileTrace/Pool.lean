import ProfileTrace.Chunk

/-! A pool of workers over one feed. A turn of a worker takes the next chunk and folds it
into the worker's own state and the state that all workers share; the turns of different
workers may come in any order. A run lets each worker in turn go on until it stops. -/

namespace ProfileTrace

inductive Flow where
  | goOn
  | stop
  deriving DecidableEq, Repr

structure Worker (ω : Type) where
  state : ω
  working : Bool := true

abbrev Job (σ ω : Type) := Chunk → σ → ω → Flow × σ × ω

structure Pool (σ ω : Type) where
  feed : Feed
  shared : σ
  workers : List (Worker ω)

namespace Pool

variable {σ ω : Type}

def start (feed : Feed) (shared : σ) (workers : Nat) (state : Nat → ω) : Pool σ ω where
  feed := feed
  shared := shared
  workers := (List.range (max workers 1)).map fun i => { state := state i }

def isWorking (pool : Pool σ ω) (i : Nat) : Bool := (pool.workers[i]?).any (·.working)

/-- The turn of a worker: it stops when no chunk is left or its job says so. -/
def turn (job : Job σ ω) (i : Nat) (pool : Pool σ ω) : Pool σ ω :=
  match pool.workers[i]? with
  | some { state, working := true } =>
      match pool.feed.next with
      | (none, feed) =>
          { pool with feed, workers := pool.workers.set i { state, working := false } }
      | (some chunk, feed) =>
          let (flow, shared, state) := job chunk pool.shared state
          { feed, shared, workers := pool.workers.set i { state, working := flow = .goOn } }
  | _ => pool

def work (pool : Pool σ ω) (i : Nat) : Nat :=
  2 * pool.feed.remaining + if pool.isWorking i then 1 else 0

theorem remaining_of_next_none {feed after : Feed} (ended : feed.next = (none, after)) :
    after.remaining = feed.remaining := by
  unfold Feed.next at ended
  simp only at ended
  split at ended
  · simp only [Prod.mk.injEq, true_and] at ended
    subst ended
    have place := StreamCursor.position_fillWindow feed.cursor
    have bytes := congrArg ByteArray.size (StreamCursor.bytes_fillWindow feed.cursor)
    simp only [Feed.remaining, Cursor.limit, Cursor.position, place, bytes]
  · simp at ended

theorem work_turn_lt {job : Job σ ω} {i : Nat} {pool : Pool σ ω}
    (busy : pool.isWorking i = true) : (turn job i pool).work i < pool.work i := by
  have found : ∃ state, pool.workers[i]? = some { state, working := true } := by
    unfold isWorking at busy
    cases found : pool.workers[i]? with
    | none => simp [found] at busy
    | some worker =>
      obtain ⟨state, working⟩ := worker
      simp only [found, Option.any_some] at busy
      exact ⟨state, by rw [busy]⟩
  obtain ⟨state, found⟩ := found
  have inside : i < pool.workers.length := by
    rcases Nat.lt_or_ge i pool.workers.length with inside | outside
    · exact inside
    · simp [List.getElem?_eq_none outside] at found
  unfold turn
  rw [found]
  simp only
  split
  next feed ended =>
    have same := remaining_of_next_none ended
    have stopped : isWorking { pool with
        feed, workers := pool.workers.set i { state, working := false } } i = false := by
      simp [isWorking, inside]
    simp only [work, busy, stopped, same, if_true, Bool.false_eq_true, if_false]
    omega
  next chunk feed taken =>
    have less := Feed.remaining_lt_of_next taken
    simp only [work, busy, if_true]
    split <;> omega

def runWorker (job : Job σ ω) (i : Nat) (pool : Pool σ ω) : Pool σ ω :=
  if _busy : pool.isWorking i then runWorker job i (turn job i pool) else pool
termination_by pool.work i
decreasing_by exact work_turn_lt _busy

def run (job : Job σ ω) (pool : Pool σ ω) : Pool σ ω :=
  (List.range pool.workers.length).foldl (fun pool i => runWorker job i pool) pool

def states (pool : Pool σ ω) : List ω := pool.workers.map (·.state)

end Pool

end ProfileTrace
