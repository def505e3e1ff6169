import ProfileTrace.Proofs.Chunk.Lockstep
import ProfileTrace.Proofs.Session.Steps

/-! What one step of a worker can do, and what this means for the trace. Only taking a chunk
moves the trace on, so that what its cursor keeps on its way forward is kept by any order of
steps; and no worker stops before the trace has no further chunk or no further sample may be
kept. -/

namespace ProfileTrace.Session
open StreamCursor (Enduring Lockstep Roomy)

def Output.count (output : Output) (record : Record) : Output :=
  { output with counts := output.counts.merge record.counts }

namespace Scene

inductive Move (options : Options) : Scene → Scene → Prop where
  | exhausted {feed after : Feed} {shared : Shared} {output : Output}
      (found : feed.next = (none, after)) :
      Move options ⟨feed, shared, .idle, output⟩ ⟨after, shared, .finished, output⟩
  | chunk {feed after : Feed} {chunk : Chunk} {shared : Shared} {output : Output}
      (found : feed.next = (some chunk, after)) :
      Move options ⟨feed, shared, .idle, output⟩
        ⟨after, shared, .reading (Record.ofText options.accepts chunk.bytes), output⟩
  | done {feed : Feed} {shared : Shared} {output : Output} :
      Move options ⟨feed, shared, .reading [], output⟩ ⟨feed, shared, .idle, output⟩
  | passed {feed : Feed} {shared : Shared} {output : Output} {record : Record}
      {records : List Record} (none : record.event? = none) :
      Move options ⟨feed, shared, .reading (record :: records), output⟩
        ⟨feed, shared, .reading records, output.count record⟩
  | refused {feed : Feed} {shared : Shared} {output : Output} {record : Record}
      {records : List Record} {event : Event} (found : record.event? = some event)
      (full : options.isFull shared.accepted = true) :
      Move options ⟨feed, shared, .reading (record :: records), output⟩
        ⟨feed, shared, .finished, output.count record⟩
  | claimed {feed : Feed} {shared : Shared} {output : Output} {record : Record}
      {records : List Record} {event : Event} (found : record.event? = some event)
      (room : options.isFull shared.accepted = false) :
      Move options ⟨feed, shared, .reading (record :: records), output⟩
        ⟨feed, { shared with accepted := shared.accepted + 1 },
          .climbing event.time (framesOf event output.states).1.reverse .root records,
          { output.count record with states := (framesOf event output.states).2 }⟩
  | kept {feed : Feed} {shared : Shared} {output : Output} {time : Seconds} {stack : StackId}
      {records : List Record} :
      Move options ⟨feed, shared, .climbing time [] stack records, output⟩
        ⟨feed, shared, .reading records, { output with samples := ⟨stack, time⟩ :: output.samples }⟩
  | frame {feed : Feed} {shared : Shared} {output : Output} {time : Seconds} {frame : Frame}
      {frames : List Frame} {caller : StackId} {records : List Record} :
      Move options ⟨feed, shared, .climbing time (frame :: frames) caller records, output⟩
        ⟨feed, { shared with tree := (shared.tree.internFrame frame).2 },
          .joining time (shared.tree.internFrame frame).1 frames caller records, output⟩
  | node {feed : Feed} {shared : Shared} {output : Output} {time : Seconds} {frame : FrameId}
      {frames : List Frame} {caller : StackId} {records : List Record} :
      Move options ⟨feed, shared, .joining time frame frames caller records, output⟩
        ⟨feed, { shared with tree := (shared.tree.internNode frame caller).2 },
          .climbing time frames (shared.tree.internNode frame caller).1 records, output⟩
  | still {feed : Feed} {shared : Shared} {output : Output} :
      Move options ⟨feed, shared, .finished, output⟩ ⟨feed, shared, .finished, output⟩

variable (options : Options)

theorem move_step (scene : Scene) : Move options scene (scene.step options) := by
  obtain ⟨feed, shared, stage, output⟩ := scene
  cases stage with
  | idle =>
    rcases found : feed.next with ⟨_ | chunk, after⟩
    · rw [step_idle_none options feed output found shared]
      exact .exhausted found
    · rw [step_idle_some options feed output found shared]
      exact .chunk found
  | reading records =>
    cases records with
    | nil => exact .done
    | cons record records =>
      simp only [step, takeRecord]
      cases found : record.event? with
      | none => exact .passed found
      | some event =>
        cases room : options.isFull shared.accepted with
        | true =>
          simp only [if_true]
          exact .refused found room
        | false =>
          simp only [Bool.false_eq_true, if_false]
          exact .claimed found room
  | climbing time frames caller records =>
    cases frames with
    | nil => exact .kept
    | cons frame frames => exact .frame
  | joining time frame frames caller records => exact .node
  | finished => exact .still

variable {options} {scene after : Scene}

theorem Move.feed_eq (move : Move options scene after) :
    after.feed = scene.feed ∨ after.feed = scene.feed.next.2 := by
  cases move with
  | exhausted found => exact .inr (congrArg Prod.snd found).symm
  | chunk found => exact .inr (congrArg Prod.snd found).symm
  | _ => exact .inl rfl

theorem Move.accepted_le (move : Move options scene after) :
    scene.shared.accepted ≤ after.shared.accepted := by
  cases move with
  | claimed found room => exact Nat.le_succ _
  | _ => exact Nat.le_refl _

end Scene

theorem isFull_mono {options : Options} {fewer more : Nat} (le : fewer ≤ more)
    (full : options.isFull fewer = true) : options.isFull more = true := by
  unfold Options.isFull at *
  cases most : options.maxSamples with
  | none => simp [most] at full
  | some most' =>
    simp only [most, Option.any_some, decide_eq_true_eq] at full ⊢
    exact Nat.le_trans full le

/-- The trace has no further chunk, or no further sample may be kept. -/
def IsOver (options : Options) (feed : Feed) (shared : Shared) : Prop :=
  feed.next.1 = none ∨ options.isFull shared.accepted = true

namespace Scene
variable {options : Options} {scene after : Scene}

theorem Move.isOver (move : Move options scene after) (roomy : scene.feed.cursor.Roomy)
    (isOver : IsOver options scene.feed scene.shared) : IsOver options after.feed after.shared := by
  rcases isOver with none | full
  · refine .inl ?_
    rcases move.feed_eq with same | next
    · rwa [same]
    · rw [next, Feed.next_of_exhausted roomy none]
  · exact .inr (isFull_mono move.accepted_le full)

theorem Move.stopped (move : Move options scene after) (roomy : scene.feed.cursor.Roomy)
    (before : scene.agent.stage.isWorking = false → IsOver options scene.feed scene.shared)
    (stopped : after.agent.stage.isWorking = false) : IsOver options after.feed after.shared := by
  cases move with
  | exhausted found =>
    refine .inl ?_
    have last := Feed.next_of_exhausted roomy (congrArg Prod.fst found)
    rw [found] at last
    exact congrArg Prod.fst last
  | refused found full => exact .inr full
  | still => exact before stopped
  | _ => cases stopped

end Scene

namespace Crew
variable {options : Options} {crew : Crew}

/-- What holds of a crew and is kept by the move of any worker is kept by any order of steps. -/
theorem run_induction {Holds : Crew → Prop}
    (move : ∀ {crew : Crew} {i : Nat} {agent : Agent} {after : Scene}, Holds crew →
      crew.agents[i]? = some agent → Scene.Move options ⟨crew.feed, crew.shared, agent⟩ after →
        Holds ⟨after.feed, after.shared, crew.agents.set i after.agent⟩)
    (holds : Holds crew) (schedule : List Nat) : Holds (crew.run options schedule) := by
  induction schedule generalizing crew with
  | nil => exact holds
  | cons i schedule ih =>
    have kept : Holds (crew.step options i) := by
      unfold step
      split
      next none => exact holds
      next agent found => exact move holds found (Scene.move_step options _)
    exact ih kept

theorem holds_run {Holds : StreamCursor → Prop} (enduring : Enduring Holds)
    (holds : Holds crew.feed.cursor) (schedule : List Nat) :
    Holds (crew.run options schedule).feed.cursor := by
  have move : ∀ {crew : Crew} {i : Nat} {agent : Agent} {after : Scene}, Holds crew.feed.cursor →
      crew.agents[i]? = some agent → Scene.Move options ⟨crew.feed, crew.shared, agent⟩ after →
        Holds after.feed.cursor := by
    intro crew i agent after holds found move
    rcases move.feed_eq with same | next
    · rwa [same]
    · rw [next]
      exact Feed.holds_next enduring holds
  exact run_induction move holds schedule

structure Persists (options : Options) (crew : Crew) : Prop where
  roomy : crew.feed.cursor.Roomy
  isOver : ∀ agent ∈ crew.agents, agent.stage.isWorking = false →
    IsOver options crew.feed crew.shared

theorem persists_start (options : Options) (reader : Reader) :
    Persists options (start options reader) where
  roomy := StreamCursor.roomy_ofReader reader _ 0
  isOver := by
    intro agent among stopped
    rw [List.eq_of_mem_replicate among] at stopped
    cases stopped

theorem Persists.move (persists : Persists options crew) {i : Nat} {agent : Agent}
    (found : crew.agents[i]? = some agent) {after : Scene}
    (move : Scene.Move options ⟨crew.feed, crew.shared, agent⟩ after) :
    Persists options ⟨after.feed, after.shared, crew.agents.set i after.agent⟩ := by
  obtain ⟨roomy, isOver⟩ := persists
  refine ⟨?_, ?_⟩
  · rcases move.feed_eq with same | next
    · rwa [same]
    · rw [next]
      exact Feed.holds_next StreamCursor.enduring_roomy roomy
  · intro other among stopped
    rcases List.mem_or_eq_of_mem_set among with old | rfl
    · exact move.isOver roomy (isOver other old stopped)
    · exact move.stopped roomy (isOver agent (List.mem_of_getElem? found)) stopped

theorem Persists.run (persists : Persists options crew) (schedule : List Nat) :
    Persists options (crew.run options schedule) :=
  run_induction (fun persists found move => persists.move found move) persists schedule

theorem isOver_of_finished {reader : Reader} {schedule : List Nat}
    (done : ((start options reader).run options schedule).IsFinished) :
    IsOver options ((start options reader).run options schedule).feed
      ((start options reader).run options schedule).shared := by
  have persists := (persists_start options reader).run schedule
  have some : ((start options reader).run options schedule).agents ≠ [] := by
    apply List.ne_nil_of_length_pos
    rw [length_agents_run]
    exact List.length_pos_iff.mpr (agents_start_ne_nil options reader)
  obtain ⟨first, among⟩ := List.exists_mem_of_ne_nil _ some
  exact persists.isOver first among (done first among)

end Crew

end ProfileTrace.Session
