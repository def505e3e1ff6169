import ProfileTrace.Proofs.Blocked.States
import ProfileTrace.Proofs.Session.Accounting

/-! A session of one worker. It takes the records of the whole trace in their order, so that for
blocked time the states of the threads are those after the events that samples are kept for. -/

namespace ProfileTrace

/-- The events that samples are kept for when so many are kept already. -/
def Options.kept (options : Options) (accepted : Nat) (events : List Event) : List Event :=
  match options.maxSamples with
  | none => events
  | some most => events.take (most - accepted)

theorem Options.kept_nil (options : Options) (accepted : Nat) : options.kept accepted [] = [] := by
  unfold kept
  split
  · rfl
  · exact List.take_nil

theorem Options.kept_cons (options : Options) (accepted : Nat) (event : Event)
    (events : List Event) : options.kept accepted (event :: events) =
      if options.isFull accepted then [] else event :: options.kept (accepted + 1) events := by
  unfold kept isFull
  cases options.maxSamples with
  | none => rfl
  | some most =>
    simp only [Option.any_some, decide_eq_true_eq]
    split
    next full => rw [Nat.sub_eq_zero_of_le full, List.take_zero]
    next room =>
      rw [← Nat.succ_pred_eq_of_pos (Nat.sub_pos_of_lt (Nat.lt_of_not_le room)),
        List.take_succ_cons]
      rfl

namespace Session
open ThreadStates (ofEvents)

variable {options : Options}

/-! ### The records one after the other -/

theorem takeRecords_cons (record : Record) (records : List Record) (shared : Shared)
    (output : Output) : takeRecords options (record :: records) shared output =
      let counted := { output with counts := output.counts.merge record.counts }
      match record.event? with
      | none => takeRecords options records shared counted
      | some event =>
          if options.isFull shared.accepted then (.stop, shared, counted)
          else takeRecords options records (keep event shared counted).1
            (keep event shared counted).2 :=
  rfl

theorem takeRecords_append (first second : List Record) (shared : Shared) (output : Output) :
    takeRecords options (first ++ second) shared output =
      match takeRecords options first shared output with
      | (.goOn, shared, output) => takeRecords options second shared output
      | (.stop, shared, output) => (.stop, shared, output) := by
  induction first generalizing shared output with
  | nil => rfl
  | cons record first ih =>
    rw [List.cons_append, takeRecords_cons, takeRecords_cons]
    cases record.event? with
    | none => exact ih _ _
    | some event =>
      simp only
      split
      · rfl
      · exact ih _ _

theorem snd_framesOf (event : Event) (states : Option ThreadStates) :
    (framesOf event states).2 = states.map (·.observe event) := by
  cases states <;> rfl

def keepAll (events : List Event) (shared : Shared) (output : Output) : Shared × Output :=
  events.foldl (fun (shared, output) event => keep event shared output) (shared, output)

theorem keepAll_cons (event : Event) (events : List Event) (shared : Shared) (output : Output) :
    keepAll (event :: events) shared output =
      keepAll events (keep event shared output).1 (keep event shared output).2 := rfl

theorem keepAll_counts (events : List Event) (shared : Shared) (output : Output)
    (counts : RecordCounts) : keepAll events shared { output with counts } =
      ((keepAll events shared output).1, { (keepAll events shared output).2 with counts }) := by
  induction events generalizing shared output with
  | nil => rfl
  | cons event events ih =>
    rw [keepAll_cons, keepAll_cons]
    exact ih (keep event shared output).1 (keep event shared output).2

theorem states_keepAll (events : List Event) (shared : Shared) (output : Output) :
    (keepAll events shared output).2.states = output.states.map fun states =>
      events.foldl (fun states event => states.observe event) states := by
  induction events generalizing shared output with
  | nil => exact Option.map_id'.symm
  | cons event events ih =>
    refine (ih (keep event shared output).1 (keep event shared output).2).trans ?_
    simp only [keep, snd_framesOf, Option.map_map]
    rfl

theorem exists_counts_takeRecords (options : Options) (records : List Record) (shared : Shared)
    (output : Output) :
    ∃ counts, (takeRecords options records shared output).2 =
      ((keepAll (options.kept shared.accepted (records.filterMap Record.event?)) shared output).1,
        { (keepAll (options.kept shared.accepted (records.filterMap Record.event?)) shared
            output).2 with counts }) := by
  induction records generalizing shared output with
  | nil =>
    rw [List.filterMap_nil, Options.kept_nil]
    exact ⟨output.counts, rfl⟩
  | cons record records ih =>
    rw [takeRecords_cons]
    cases found : record.event? with
    | none =>
      obtain ⟨counts, taken⟩ := ih shared
        { output with counts := output.counts.merge record.counts }
      rw [List.filterMap_cons_none found]
      rw [keepAll_counts] at taken
      exact ⟨counts, taken⟩
    | some event =>
      rw [List.filterMap_cons_some found, Options.kept_cons]
      simp only
      split
      · exact ⟨_, rfl⟩
      · obtain ⟨counts, taken⟩ := ih (keep event shared output).1
          { (keep event shared output).2 with counts := output.counts.merge record.counts }
        rw [keepAll_counts] at taken
        rw [keepAll_cons]
        exact ⟨counts, taken⟩

theorem states_takeRecords (records : List Record) (shared : Shared) (output : Output) :
    (takeRecords options records shared output).2.2.states = output.states.map fun states =>
      (options.kept shared.accepted (records.filterMap Record.event?)).foldl
        (fun states event => states.observe event) states := by
  obtain ⟨counts, taken⟩ := exists_counts_takeRecords options records shared output
  rw [taken]
  exact states_keepAll _ shared output

/-! ### The chunks one after the other -/

def alone (feed : Feed) (shared : Shared) (output : Output) (working : Bool) :
    Pool Shared Output :=
  ⟨feed, shared, [{ state := output, working }]⟩

theorem runWorker_idle (options : Options) (feed : Feed) (shared : Shared) (output : Output) :
    (alone feed shared output false).runWorker (job options) 0 = alone feed shared output false := by
  rw [Pool.runWorker, dif_neg (by simp [Pool.isWorking, alone])]

theorem runWorker_busy (options : Options) (feed : Feed) (shared : Shared) (output : Output) :
    (alone feed shared output true).runWorker (job options) 0 =
      ((alone feed shared output true).turn (job options) 0).runWorker (job options) 0 := by
  rw [Pool.runWorker, dif_pos (by simp [Pool.isWorking, alone])]

theorem turn_none {feed after : Feed} (found : feed.next = (none, after)) (options : Options)
    (shared : Shared) (output : Output) :
    (alone feed shared output true).turn (job options) 0 = alone after shared output false := by
  simp [Pool.turn, alone, found]

theorem turn_some {feed after : Feed} {chunk : Chunk} (found : feed.next = (some chunk, after))
    {shared later : Shared} {output : Output} {flow : Flow} {state : Output}
    (taken : takeRecords options (Record.ofText options.accepts chunk.bytes) shared output =
      (flow, later, state)) :
    (alone feed shared output true).turn (job options) 0 =
      alone after later state (flow = .goOn) := by
  simp [Pool.turn, alone, found, job, taken]

/-- A single worker takes the records of all chunks one after the other. -/
theorem runWorker_alone {content : List UInt8} {capacity : Nat} {feed : Feed}
    (reads : Feed.Reads content capacity feed) (shared : Shared) (output : Output) :
    ∃ last working, Feed.Reads content capacity last ∧
      (alone feed shared output true).runWorker (job options) 0 =
        alone last (takeRecords options (feed.records options.accepts) shared output).2.1
          (takeRecords options (feed.records options.accepts) shared output).2.2 working := by
  fun_induction Feed.chunks feed generalizing shared output with
  | case1 feed after found =>
    rw [runWorker_busy, turn_none found, Feed.records_none found, runWorker_idle]
    exact ⟨after, false, (reads.ended found).1, rfl⟩
  | case2 feed chunk after found more last rest ih =>
    rcases taken : takeRecords options (Record.ofText options.accepts chunk.bytes) shared output
      with ⟨flow, later, state⟩
    rw [runWorker_busy, turn_some found taken, Feed.records_some found, takeRecords_append, taken]
    have next := (reads.next found).1
    cases flow with
    | goOn => exact ih next later state
    | stop =>
      rw [decide_eq_false (by decide), runWorker_idle]
      exact ⟨after, false, next, rfl⟩

/-! ### The session -/

def recordsOf (options : Options) (reader : Reader) : List Record :=
  (Feed.ofReader reader options.windowLength).records options.accepts

def outcome (options : Options) (reader : Reader) : Shared × Output :=
  (takeRecords options (recordsOf options reader) {}
    { states := if options.threadTime then some {} else none }).2

theorem read_of_single {reader : Reader} (calm : reader.Faultless)
    (single : options.effectiveWorkers = 1) : ∃ last working, read options reader =
      .ok (gather (alone last (outcome options reader).1 (outcome options reader).2 working)) := by
  have start : pool options reader =
      alone (Feed.ofReader reader options.windowLength) {}
        { states := if options.threadTime then some {} else none } true := by
    simp [pool, Pool.start, single, alone]
  have run : (pool options reader).run (job options) =
      (pool options reader).runWorker (job options) 0 := by
    rw [Pool.run, start]
    rfl
  obtain ⟨last, working, reads, ended⟩ := runWorker_alone (Feed.reads_ofReader calm _) {} _
  rw [← start, ← run] at ended
  refine ⟨last, working, ?_⟩
  rw [read, ended]
  simp only [alone, reads.stands.noFault]
  rfl

def observed (options : Options) (reader : Reader) : List Event :=
  options.kept 0 ((recordsOf options reader).filterMap Record.event?)

theorem states_outcome (timed : options.threadTime = true) (reader : Reader) :
    (outcome options reader).2.states = some (ofEvents (observed options reader)) := by
  rw [outcome, states_takeRecords, timed]
  rfl

theorem blocked_gather (feed : Feed) (shared : Shared) (output : Output) (working : Bool) :
    (gather (alone feed shared output working)).blocked = output.states.map fun states =>
      states.report.rebase (StackSource.arrange output.samples.reverse).1 := by
  simp only [gather, alone, Pool.states, List.map_singleton, List.findSome?_singleton,
    List.flatMap_singleton]

/-- For blocked time a session gives what the states of the threads after all observed events
report. -/
theorem blocked_of_timed {reader : Reader} (calm : reader.Faultless)
    (timed : options.threadTime = true) :
    ∃ source origin, read options reader = .ok source ∧
      source.blocked = some ((ofEvents (observed options reader)).report.rebase origin) := by
  have single : options.effectiveWorkers = 1 := by rw [Options.effectiveWorkers, if_pos timed]
  obtain ⟨last, working, found⟩ := read_of_single calm single
  have blocked := blocked_gather last (outcome options reader).1 (outcome options reader).2 working
  rw [states_outcome timed] at blocked
  exact ⟨_, _, found, blocked⟩

end Session

end ProfileTrace
