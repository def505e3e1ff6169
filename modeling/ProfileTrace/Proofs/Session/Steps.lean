import Mathlib.Logic.Function.Iterate
import ProfileTrace.Proofs.CallTree.Interning
import ProfileTrace.Proofs.Pool.Turns
import ProfileTrace.Session

/-! The workers of a session step by step. In one step a worker uses at most one thing that all
of them share: it takes a chunk, counts a sample, or has one frame or one node numbered. The
steps of different workers may come in any order; that of a session is one of them. -/

namespace ProfileTrace

namespace Session

inductive Stage where
  | idle
  /-- It reads one more record of its chunk. -/
  | reading (records : List Record)
  /-- It numbers the next frame of a stack, from the root on, or keeps the finished sample. -/
  | climbing (time : Seconds) (frames : List Frame) (caller : StackId) (records : List Record)
  /-- It numbers the node of a frame under its caller. -/
  | joining (time : Seconds) (frame : FrameId) (frames : List Frame) (caller : StackId)
      (records : List Record)
  | finished

def Stage.isWorking : Stage → Bool
  | .finished => false
  | _ => true

def Stage.after : Flow → Stage
  | .goOn => .idle
  | .stop => .finished

@[simp] theorem Stage.isWorking_after (flow : Flow) :
    (Stage.after flow).isWorking = decide (flow = .goOn) := by
  cases flow <;> rfl

theorem Stage.after_rests (flow : Flow) :
    Stage.after flow = .idle ∨ Stage.after flow = .finished := by
  cases flow with
  | goOn => exact .inl rfl
  | stop => exact .inr rfl

structure Agent where
  stage : Stage := .idle
  output : Output

/-- What is left of the trace, what all workers share, and one of the workers. -/
structure Scene where
  feed : Feed
  shared : Shared
  agent : Agent

structure Crew where
  feed : Feed
  shared : Shared
  agents : List Agent

def takeRecord (options : Options) (record : Record) (records : List Record) (scene : Scene) : Scene :=
  let output :=
    { scene.agent.output with counts := scene.agent.output.counts.merge record.counts }
  match record.event? with
  | none => { scene with agent := { stage := .reading records, output } }
  | some event =>
      if options.isFull scene.shared.accepted then
        { scene with agent := { stage := .finished, output } }
      else
        let (frames, states) := framesOf event output.states
        { scene with
          shared := { scene.shared with accepted := scene.shared.accepted + 1 }
          agent :=
            { stage := .climbing event.time frames.reverse .root records
              output := { output with states } } }

def Scene.step (options : Options) (scene : Scene) : Scene :=
  match scene.agent.stage with
  | .idle =>
      match scene.feed.next with
      | (none, feed) => { scene with feed, agent := { scene.agent with stage := .finished } }
      | (some chunk, feed) =>
          let records := Record.ofText options.accepts chunk.bytes
          { scene with feed, agent := { scene.agent with stage := .reading records } }
  | .reading [] => { scene with agent := { scene.agent with stage := .idle } }
  | .reading (record :: records) => takeRecord options record records scene
  | .climbing time [] stack records =>
      let samples := { stack, time } :: scene.agent.output.samples
      { scene with
        agent := { stage := .reading records, output := { scene.agent.output with samples } } }
  | .climbing time (frame :: frames) caller records =>
      let (id, tree) := scene.shared.tree.internFrame frame
      { scene with
        shared := { scene.shared with tree }
        agent := { scene.agent with stage := .joining time id frames caller records } }
  | .joining time frame frames caller records =>
      let (stack, tree) := scene.shared.tree.internNode frame caller
      { scene with
        shared := { scene.shared with tree }
        agent := { scene.agent with stage := .climbing time frames stack records } }
  | .finished => scene

namespace Crew

def start (options : Options) (reader : Reader) : Crew where
  feed := Feed.ofReader reader options.windowLength
  shared := {}
  agents :=
    let output := { states := if options.threadTime then some {} else none }
    List.replicate options.effectiveWorkers { output }

def step (options : Options) (crew : Crew) (i : Nat) : Crew :=
  match crew.agents[i]? with
  | none => crew
  | some agent =>
      let scene := Scene.step options ⟨crew.feed, crew.shared, agent⟩
      ⟨scene.feed, scene.shared, crew.agents.set i scene.agent⟩

def run (options : Options) (crew : Crew) (schedule : List Nat) : Crew :=
  schedule.foldl (step options) crew

def IsFinished (crew : Crew) : Prop := ∀ agent ∈ crew.agents, agent.stage.isWorking = false

def pool (crew : Crew) : Pool Shared Output where
  feed := crew.feed
  shared := crew.shared
  workers := crew.agents.map fun agent =>
    { state := agent.output, working := agent.stage.isWorking }

def result (crew : Crew) : Except Fault StackSource :=
  match crew.feed.cursor.fault with
  | some fault => .error fault
  | none => .ok (gather crew.pool)

theorem run_append (options : Options) (crew : Crew) (first second : List Nat) :
    crew.run options (first ++ second) = (crew.run options first).run options second :=
  List.foldl_append

theorem run_concat (options : Options) (crew : Crew) (schedule : List Nat) (i : Nat) :
    crew.run options (schedule ++ [i]) = (crew.run options schedule).step options i := by
  rw [run_append]
  rfl

@[simp] theorem length_agents_step (options : Options) (crew : Crew) (i : Nat) :
    (crew.step options i).agents.length = crew.agents.length := by
  unfold step
  split <;> simp

@[simp] theorem length_agents_run (options : Options) (crew : Crew) (schedule : List Nat) :
    (crew.run options schedule).agents.length = crew.agents.length := by
  induction schedule generalizing crew with
  | nil => rfl
  | cons i schedule ih => exact (ih (crew.step options i)).trans (length_agents_step options crew i)

theorem agents_start_ne_nil (options : Options) (reader : Reader) :
    (start options reader).agents ≠ [] := by
  have positive : 0 < options.effectiveWorkers := by
    unfold Options.effectiveWorkers
    split <;> omega
  apply List.ne_nil_of_length_pos
  rwa [start, List.length_replicate]

end Crew

/-! ### The steps of a session -/

namespace Scene
variable (options : Options) (feed : Feed) (output : Output) (records : List Record)

/-- A stack that is numbered frame by frame has the number that it has at once. -/
theorem exists_climb (time : Seconds) (frames : List Frame) (caller : StackId) (shared : Shared) :
    ∃ count, (step options)^[count] ⟨feed, shared, .climbing time frames caller records, output⟩ =
      ⟨feed, { shared with tree := (shared.tree.internStack frames.reverse caller).2 },
        .reading records,
        { output with
          samples := ⟨(shared.tree.internStack frames.reverse caller).1, time⟩ ::
            output.samples }⟩ := by
  induction frames generalizing caller shared with
  | nil => exact ⟨1, rfl⟩
  | cons frame frames ih =>
    obtain ⟨count, climbed⟩ := ih
      ((shared.tree.internFrame frame).2.internNode (shared.tree.internFrame frame).1 caller).1
      { shared with
        tree := ((shared.tree.internFrame frame).2.internNode
          (shared.tree.internFrame frame).1 caller).2 }
    refine ⟨count + 2, ?_⟩
    rw [List.reverse_cons, CallTree.internStack_concat]
    exact climbed

theorem exists_takeRecords (shared : Shared) :
    ∃ count, (step options)^[count] ⟨feed, shared, .reading records, output⟩ =
      ⟨feed, (takeRecords options records shared output).2.1,
        .after (takeRecords options records shared output).1,
        (takeRecords options records shared output).2.2⟩ := by
  induction records generalizing shared output with
  | nil => exact ⟨1, rfl⟩
  | cons record records ih =>
    let counted := { output with counts := output.counts.merge record.counts }
    have first : step options ⟨feed, shared, .reading (record :: records), output⟩ =
        takeRecord options record records
          ⟨feed, shared, .reading (record :: records), output⟩ := rfl
    cases found : record.event? with
    | none =>
      obtain ⟨count, taken⟩ := ih counted shared
      refine ⟨count + 1, ?_⟩
      rw [Function.iterate_succ_apply, first]
      simp only [takeRecord, takeRecords, found]
      exact taken
    | some event =>
      by_cases full : options.isFull shared.accepted = true
      · refine ⟨1, ?_⟩
        rw [Function.iterate_one, first]
        simp only [takeRecord, takeRecords, found, full, if_true, Stage.after]
      · obtain ⟨climb, climbed⟩ := exists_climb options feed
          { counted with states := (framesOf event output.states).2 } records event.time
          (framesOf event output.states).1.reverse .root
          { shared with accepted := shared.accepted + 1 }
        rw [List.reverse_reverse] at climbed
        obtain ⟨count, taken⟩ := ih (keep event shared counted).2 (keep event shared counted).1
        refine ⟨count + climb + 1, ?_⟩
        rw [Function.iterate_succ_apply, first, Function.iterate_add_apply]
        simp only [takeRecord, takeRecords, found, full, Bool.false_eq_true, if_false]
        rw [climbed]
        exact taken

theorem step_idle_none {after : Feed} (ended : feed.next = (none, after)) (shared : Shared) :
    step options ⟨feed, shared, .idle, output⟩ = ⟨after, shared, .finished, output⟩ := by
  simp only [step, ended]

theorem step_idle_some {chunk : Chunk} {after : Feed} (found : feed.next = (some chunk, after))
    (shared : Shared) :
    step options ⟨feed, shared, .idle, output⟩ =
      ⟨after, shared, .reading (Record.ofText options.accepts chunk.bytes), output⟩ := by
  simp only [step, found]

theorem exists_rest (scene : Scene) :
    ∃ count, ((step options)^[count] scene).agent.stage = .idle ∨
      ((step options)^[count] scene).agent.stage = .finished := by
  have read : ∀ records feed shared output, ∃ count,
      ((step options)^[count] ⟨feed, shared, .reading records, output⟩).agent.stage = .idle ∨
      ((step options)^[count] ⟨feed, shared, .reading records, output⟩).agent.stage = .finished := by
    intro records feed shared output
    obtain ⟨count, taken⟩ := exists_takeRecords options feed output records shared
    refine ⟨count, ?_⟩
    rw [taken]
    exact Stage.after_rests _
  have climb : ∀ time frames caller records feed shared output, ∃ count,
      ((step options)^[count] ⟨feed, shared, .climbing time frames caller records,
        output⟩).agent.stage = .idle ∨
      ((step options)^[count] ⟨feed, shared, .climbing time frames caller records,
        output⟩).agent.stage = .finished := by
    intro time frames caller records feed shared output
    obtain ⟨count, climbed⟩ := exists_climb options feed output records time frames caller shared
    obtain ⟨more, rest⟩ := read records _ _ _
    refine ⟨more + count, ?_⟩
    rw [Function.iterate_add_apply, climbed]
    exact rest
  obtain ⟨feed, shared, stage, output⟩ := scene
  cases stage with
  | idle => exact ⟨0, .inl rfl⟩
  | reading records => exact read records feed shared output
  | climbing time frames caller records => exact climb time frames caller records feed shared output
  | joining time frame frames caller records =>
    obtain ⟨count, rest⟩ := climb time frames _ records feed _ output
    exact ⟨count + 1, rest⟩
  | finished => exact ⟨0, .inr rfl⟩

end Scene

namespace Crew
variable {options : Options} {crew : Crew} {i : Nat} {agent : Agent}

theorem run_replicate (found : crew.agents[i]? = some agent) (count : Nat) {scene : Scene}
    (reached : (Scene.step options)^[count] ⟨crew.feed, crew.shared, agent⟩ = scene) :
    crew.run options (List.replicate count i) =
      ⟨scene.feed, scene.shared, crew.agents.set i scene.agent⟩ := by
  obtain ⟨inside, here⟩ := List.getElem?_eq_some_iff.mp found
  induction count generalizing scene with
  | zero =>
    subst reached here
    simp [run]
  | succ count ih =>
    rw [Function.iterate_succ_apply'] at reached
    rw [List.replicate_succ', run_concat, ih rfl, ← reached]
    unfold step
    simp [inside]

def IsRested (crew : Crew) : Prop :=
  ∀ agent ∈ crew.agents, agent.stage = .idle ∨ agent.stage = .finished

theorem IsRested.set (rested : crew.IsRested) (feed : Feed) (shared : Shared) (i : Nat)
    (rest : agent.stage = .idle ∨ agent.stage = .finished) :
    IsRested ⟨feed, shared, crew.agents.set i agent⟩ := by
  intro other among
  rcases List.mem_or_eq_of_mem_set among with old | rfl
  · exact rested other old
  · exact rest

theorem pool_set (feed : Feed) (shared : Shared) (i : Nat) (agent : Agent) :
    pool ⟨feed, shared, crew.agents.set i agent⟩ =
      { feed, shared
        workers := crew.pool.workers.set i
          { state := agent.output, working := agent.stage.isWorking } } := by
  simp [pool, List.map_set]

theorem pool_run_replicate (rested : crew.IsRested) (found : crew.agents[i]? = some agent)
    {count : Nat} {scene : Scene}
    (reached : (Scene.step options)^[count] ⟨crew.feed, crew.shared, agent⟩ = scene)
    (rest : scene.agent.stage = .idle ∨ scene.agent.stage = .finished) :
    (crew.run options (List.replicate count i)).pool =
        { feed := scene.feed
          shared := scene.shared
          workers := crew.pool.workers.set i
            { state := scene.agent.output, working := scene.agent.stage.isWorking } } ∧
      (crew.run options (List.replicate count i)).IsRested := by
  rw [run_replicate found count reached, pool_set]
  exact ⟨rfl, rested.set _ _ i rest⟩

/-- A turn of a worker is a run of its steps. -/
theorem exists_run_turn (rested : crew.IsRested) (i : Nat) :
    ∃ schedule, (crew.run options schedule).pool = Pool.turn (job options) i crew.pool ∧
      (crew.run options schedule).IsRested := by
  cases found : crew.agents[i]? with
  | none =>
    have absent : crew.pool.workers[i]? = none := by simpa [pool] using found
    refine ⟨[], ?_, rested⟩
    simp [run, Pool.turn, absent]
  | some agent =>
    have worker : crew.pool.workers[i]? =
        some { state := agent.output, working := agent.stage.isWorking } := by
      simp [pool, found]
    have feed : crew.pool.feed = crew.feed := rfl
    obtain ⟨stage, output⟩ := agent
    rcases rested _ (List.mem_of_getElem? found) with rfl | rfl
    · have working : Stage.idle.isWorking = true := rfl
      rw [working] at worker
      rcases taken : crew.feed.next with ⟨_ | chunk, after⟩
      · have last := Scene.step_idle_none options crew.feed output taken crew.shared
        rw [← Function.iterate_one (Scene.step options)] at last
        obtain ⟨turned, rest⟩ := pool_run_replicate rested found last (.inr rfl)
        refine ⟨List.replicate 1 i, ?_, rest⟩
        rw [turned, Pool.turn, worker]
        simp only [feed, taken]
        rfl
      -- a turn reads a chunk to its end, which is one step for it and `count` for its records
      · obtain ⟨count, records⟩ := Scene.exists_takeRecords options after output
          (Record.ofText options.accepts chunk.bytes) crew.shared
        rw [← Scene.step_idle_some options crew.feed output taken crew.shared,
          ← Function.iterate_succ_apply] at records
        obtain ⟨turned, rest⟩ := pool_run_replicate rested found records (Stage.after_rests _)
        refine ⟨List.replicate (count + 1) i, ?_, rest⟩
        rw [turned, Pool.turn, worker]
        simp only [feed, taken, Stage.isWorking_after]
        rfl
    · have working : Stage.finished.isWorking = false := rfl
      rw [working] at worker
      refine ⟨[], ?_, rested⟩
      simp [run, Pool.turn, worker]

theorem exists_run_runWorker (rested : crew.IsRested) (i : Nat) :
    ∃ schedule, (crew.run options schedule).pool = Pool.runWorker (job options) i crew.pool ∧
      (crew.run options schedule).IsRested := by
  generalize same : crew.pool = pool
  fun_induction Pool.runWorker (job options) i pool generalizing crew with
  | case1 pool busy ih =>
    obtain ⟨first, turned, rest⟩ := exists_run_turn rested i
    obtain ⟨others, done, last⟩ := ih rest (turned.trans (by rw [same]))
    exact ⟨first ++ others, by rw [run_append, done], by rwa [run_append]⟩
  | case2 pool idle => exact ⟨[], same, rested⟩

theorem exists_run_pool (options : Options) (rested : crew.IsRested) (order : List Nat) :
    ∃ schedule, (crew.run options schedule).pool =
        order.foldl (fun pool i => Pool.runWorker (job options) i pool) crew.pool ∧
      (crew.run options schedule).IsRested := by
  induction order generalizing crew with
  | nil => exact ⟨[], rfl, rested⟩
  | cons i order ih =>
    obtain ⟨first, turned, rest⟩ := exists_run_runWorker rested i
    obtain ⟨others, done, last⟩ := ih rest
    refine ⟨first ++ others, ?_, by rwa [run_append]⟩
    rw [run_append, done, turned]
    rfl

theorem isRested_start (options : Options) (reader : Reader) : (start options reader).IsRested := by
  intro agent among
  rw [List.eq_of_mem_replicate among]
  exact .inl rfl

theorem pool_start (options : Options) (reader : Reader) :
    (start options reader).pool = Session.pool options reader := by
  have positive : max options.effectiveWorkers 1 = options.effectiveWorkers := by
    unfold Options.effectiveWorkers
    split <;> omega
  simp [pool, start, Session.pool, Pool.start, positive, List.map_const', Stage.isWorking]

theorem exists_run_finished (options : Options) (rested : crew.IsRested) :
    ∃ schedule, (crew.run options schedule).IsFinished ∧
      (crew.run options schedule).pool = Pool.run (job options) crew.pool := by
  obtain ⟨schedule, same, -⟩ := exists_run_pool options rested (List.range crew.pool.workers.length)
  refine ⟨schedule, ?_, same⟩
  intro agent among
  obtain ⟨i, found⟩ := List.mem_iff_getElem?.mp among
  have idle := Pool.isWorking_run (job options) crew.pool i
  rw [Pool.run, ← same, Pool.isWorking] at idle
  simpa [pool, found] using idle

/-- A session is a run of its workers to the end. -/
theorem exists_run_read (options : Options) (reader : Reader) :
    ∃ schedule, ((start options reader).run options schedule).IsFinished ∧
      ((start options reader).run options schedule).result = Session.read options reader := by
  obtain ⟨schedule, finished, same⟩ := exists_run_finished options (isRested_start options reader)
  rw [pool_start] at same
  refine ⟨schedule, finished, ?_⟩
  rw [result, Session.read, ← same]
  rfl

theorem exists_run_rested (options : Options) (crew : Crew) :
    ∃ schedule, (crew.run options schedule).IsRested := by
  have upTo : ∀ bound ≤ crew.agents.length, ∃ schedule, ∀ i < bound, ∀ agent,
      (crew.run options schedule).agents[i]? = some agent →
        agent.stage = .idle ∨ agent.stage = .finished := by
    intro bound
    induction bound with
    | zero => exact fun _ => ⟨[], by simp⟩
    | succ bound ih =>
      intro inside
      obtain ⟨schedule, before⟩ := ih (Nat.le_of_succ_le inside)
      have here : bound < (crew.run options schedule).agents.length := by
        rwa [length_agents_run]
      have found := List.getElem?_eq_getElem here
      obtain ⟨count, rest⟩ := Scene.exists_rest options
        ⟨(crew.run options schedule).feed, (crew.run options schedule).shared, _⟩
      have moved : (crew.run options schedule).run options (List.replicate count bound) = _ :=
        run_replicate found count rfl
      refine ⟨schedule ++ List.replicate count bound, ?_⟩
      intro i below agent there
      rw [run_append, moved] at there
      by_cases last : i = bound
      · subst last
        rw [List.getElem?_set_self here] at there
        obtain rfl := Option.some.inj there
        exact rest
      · rw [List.getElem?_set_ne (Ne.symm last)] at there
        exact before i (by omega) agent there
  obtain ⟨schedule, rest⟩ := upTo crew.agents.length (Nat.le_refl _)
  refine ⟨schedule, ?_⟩
  intro agent among
  obtain ⟨i, found⟩ := List.mem_iff_getElem?.mp among
  have inside := (List.getElem?_eq_some_iff.mp found).1
  rw [length_agents_run] at inside
  exact rest i inside agent found

/-- No order of steps leaves the workers without a way to the end. -/
theorem exists_run_on (options : Options) (crew : Crew) (schedule : List Nat) :
    ∃ more, (crew.run options (schedule ++ more)).IsFinished := by
  obtain ⟨first, rested⟩ := exists_run_rested options (crew.run options schedule)
  obtain ⟨others, finished, -⟩ := exists_run_finished options rested
  refine ⟨first ++ others, ?_⟩
  rwa [run_append, run_append]

end Crew

end Session

end ProfileTrace
