import Mathlib.Data.List.Pairwise
import ProfileTrace.Proofs.Seconds.Monotone
import ProfileTrace.Proofs.Session.Moves
import ProfileTrace.Proofs.Session.Schedules
import ProfileTrace.Proofs.Session.SingleWorker

/-! Samples in the order of time, counted from zero. Counting from the earliest time keeps the
order of the others as long as that time is a number. A time need not be one: what stands in the
column of a record may spell an infinite or undefined value, and it then spoils the order. -/

namespace ProfileTrace

instance : IsTrans Sample fun a b => a.time ≤ b.time :=
  ⟨fun _ _ _ first second => Seconds.le_trans first second⟩

/-- The first sample is at time zero, and each other one is not before the one next to it. -/
structure IsChronological (samples : List Sample) : Prop where
  first : ∀ sample ∈ samples.head?, sample.time = .zero
  ascending : samples.IsChain fun a b => a.time ≤ b.time

namespace StackSource
open Seconds (earliest)

theorem isChronological_map_iff {first : Sample} {others : List Sample}
    (sorted : (first :: others).Pairwise fun a b => a.time.totalLe b.time) :
    IsChronological ((first :: others).map fun sample =>
        { sample with time := sample.time - first.time }) ↔
      first.time.isFinite = true ∧
        ∀ sample ∈ first :: others, sample.time.isUndefined = false := by
  constructor
  · rintro ⟨zero, ascending⟩
    have zero : first.time - first.time = .zero := zero _ rfl
    have finite : first.time.isFinite = true := by
      cases other : first.time.isFinite with
      | true => rfl
      | false =>
        have undefined := Seconds.isUndefined_sub_self other
        rw [zero] at undefined
        exact absurd undefined (by decide)
    refine ⟨finite, ?_⟩
    intro sample among
    rcases List.mem_cons.mp among with rfl | later
    · exact Seconds.isUndefined_of_isFinite finite
    · have ordered := List.isChain_iff_pairwise.mp ascending
      have above := (List.pairwise_cons.mp ordered).1 _ (List.mem_map_of_mem later)
      cases undefined : sample.time.isUndefined with
      | false => rfl
      | true =>
        have still := Seconds.isUndefined_sub_left undefined first.time
        rw [above.2.1] at still
        cases still
  · rintro ⟨finite, defined⟩
    constructor
    · rintro sample ⟨⟩
      exact Seconds.sub_self_of_finite finite
    · rw [List.isChain_iff_pairwise, List.pairwise_map]
      apply sorted.imp_of_mem
      intro a b one other below
      have le := Seconds.le_of_totalLe (defined a one) (defined b other) below
      exact Seconds.sub_le_sub_right finite le

/-- Arranged samples are chronological just when the earliest time is finite and no time is
undefined. -/
theorem isChronological_arrange_iff (samples : List Sample) :
    IsChronological (arrange samples).2 ↔ samples = [] ∨
      (earliest (samples.map Sample.time)).isFinite = true ∧
        ∀ sample ∈ samples, sample.time.isUndefined = false := by
  have sorted := sorted_times samples
  have same := List.mergeSort_perm samples fun a b => a.time.totalLe b.time
  have none : samples = [] ↔ (samples.mergeSort fun a b => a.time.totalLe b.time) = [] := by
    rw [← List.length_eq_zero_iff, ← same.length_eq, List.length_eq_zero_iff]
  rw [← fst_arrange, arrange]
  simp only [none, ← same.mem_iff]
  revert sorted
  cases samples.mergeSort _ with
  | nil => exact fun _ => ⟨fun _ => .inl rfl, fun _ => ⟨by simp, .nil⟩⟩
  | cons first others =>
    intro sorted
    simp only [reduceCtorEq, false_or]
    exact isChronological_map_iff sorted

theorem isChronological_arrange_events {samples : List Sample} {events : List Event}
    (times : events.map Event.time = samples.map Sample.time) :
    IsChronological (arrange samples).2 ↔ events = [] ∨
      (earliest (events.map Event.time)).isFinite = true ∧
        ∀ event ∈ events, event.time.isUndefined = false := by
  have none : samples = [] ↔ events = [] := by
    rw [← List.map_eq_nil_iff (f := Sample.time), ← times, List.map_eq_nil_iff]
  have defined : (∀ sample ∈ samples, sample.time.isUndefined = false) ↔
      ∀ event ∈ events, event.time.isUndefined = false := by
    rw [← List.forall_mem_map (f := Sample.time) (P := fun time => time.isUndefined = false),
      ← times, List.forall_mem_map]
  rw [isChronological_arrange_iff, none, defined, times]

theorem times_arrange_events {samples : List Sample} {events : List Event}
    (times : events.map Event.time = samples.map Sample.time) :
    ((arrange samples).2.map Sample.time).Perm
      (events.map fun event => event.time - earliest (events.map Event.time)) := by
  have each := (snd_arrange_perm samples).map Sample.time
  have counted : samples.map (Sample.time ∘ fun sample =>
      { sample with time := sample.time - earliest (samples.map Sample.time) }) =
      events.map fun event => event.time - earliest (events.map Event.time) := by
    have both := congrArg (List.map (· - earliest (events.map Event.time))) times
    rw [List.map_map, List.map_map] at both
    rw [← times]
    exact both.symm
  rwa [List.map_map, counted] at each

theorem isFinite_earliest {events : List Event} (some : events ≠ [])
    (finite : ∀ event ∈ events, event.time.isFinite = true) :
    (earliest (events.map Event.time)).isFinite = true := by
  have times : events.map Event.time ≠ [] := fun none => some (List.map_eq_nil_iff.mp none)
  obtain ⟨event, among, same⟩ := List.mem_map.mp (Seconds.earliest_mem times)
  rw [← same]
  exact finite event among

end StackSource

/-! ### The times of a session -/

def Feed.IsOf (accepts : String → Bool) (events : List Event) (feed : Feed) : Prop :=
  ∀ record ∈ feed.records accepts, ∀ event ∈ record.event?, event ∈ events

theorem Feed.IsOf.next {events : List Event} {feed : Feed} {accepts : String → Bool}
    (isOf : feed.IsOf accepts events) (roomy : feed.cursor.Roomy) :
    feed.next.2.IsOf accepts events := by
  rcases found : feed.next with ⟨_ | chunk, after⟩
  · have last := Feed.next_of_exhausted roomy (congrArg Prod.fst found)
    rw [found] at last
    intro record among
    rw [Feed.records_none last] at among
    cases among
  · intro record among
    apply isOf record
    rw [Feed.records_some found]
    exact List.mem_append_right _ among

theorem exists_map_time {events : List Event} {times : List Seconds}
    (among : ∀ time ∈ times, time ∈ events.map Event.time) :
    ∃ chosen : List Event, chosen.map Event.time = times ∧ ∀ event ∈ chosen, event ∈ events := by
  induction times with
  | nil => exact ⟨[], rfl, by simp⟩
  | cons time times ih =>
    obtain ⟨chosen, same, inside⟩ := ih fun other later => among other (List.mem_cons_of_mem _ later)
    obtain ⟨event, here, rfl⟩ := List.mem_map.mp (among time List.mem_cons_self)
    refine ⟨event :: chosen, by rw [List.map_cons, same], ?_⟩
    intro other chosen
    rcases List.mem_cons.mp chosen with rfl | later
    · exact here
    · exact inside other later

namespace Session

def Stage.left : Stage → List Record
  | .reading records | .climbing _ _ _ records | .joining _ _ _ _ records => records
  | .idle | .finished => []

def Stage.time? : Stage → Option Seconds
  | .climbing time .. | .joining time .. => some time
  | .idle | .reading _ | .finished => none

structure Agent.IsOf (events : List Event) (agent : Agent) : Prop where
  left : ∀ record ∈ agent.stage.left, ∀ event ∈ record.event?, event ∈ events
  inWork : ∀ time ∈ agent.stage.time?, time ∈ events.map Event.time
  samples : ∀ sample ∈ agent.output.samples, sample.time ∈ events.map Event.time

/-- What is left of a trace and what its workers have of it comes from these events. -/
structure Crew.IsOf (options : Options) (events : List Event) (crew : Crew) : Prop extends
    Crew.Persists options crew where
  feed : crew.feed.IsOf options.accepts events
  agents : ∀ agent ∈ crew.agents, agent.IsOf events

section
variable {options : Options} {events : List Event} {crew : Crew} {scene after : Scene}

theorem Scene.Move.agentIsOf (move : Move options scene after)
    (feed : scene.feed.IsOf options.accepts events) (isOf : scene.agent.IsOf events) :
    after.agent.IsOf events := by
  obtain ⟨left, inWork, samples⟩ := isOf
  cases move with
  | exhausted found => exact ⟨by simp [Stage.left], by simp [Stage.time?], samples⟩
  | chunk found =>
    refine ⟨fun record among => feed record ?_, by simp [Stage.time?], samples⟩
    rw [Feed.records_some found]
    exact List.mem_append_left _ among
  | done => exact ⟨by simp [Stage.left], inWork, samples⟩
  | passed none =>
    exact ⟨fun record among => left record (List.mem_cons_of_mem _ among), inWork, samples⟩
  | refused found full => exact ⟨by simp [Stage.left], by simp [Stage.time?], samples⟩
  | claimed found room =>
    refine ⟨fun record among => left record (List.mem_cons_of_mem _ among), ?_, samples⟩
    rintro time ⟨⟩
    exact List.mem_map_of_mem (left _ List.mem_cons_self _ found)
  | kept =>
    refine ⟨left, by simp [Stage.time?], ?_⟩
    intro sample among
    rcases List.mem_cons.mp among with rfl | before
    · exact inWork _ rfl
    · exact samples sample before
  | frame => exact ⟨left, inWork, samples⟩
  | node => exact ⟨left, inWork, samples⟩
  | still => exact ⟨left, inWork, samples⟩

namespace Crew

theorem IsOf.move (isOf : IsOf options events crew) {i : Nat} {agent : Agent}
    (found : crew.agents[i]? = some agent)
    (move : Scene.Move options ⟨crew.feed, crew.shared, agent⟩ after) :
    IsOf options events ⟨after.feed, after.shared, crew.agents.set i after.agent⟩ := by
  obtain ⟨persists, feed, agents⟩ := isOf
  refine ⟨persists.move found move, ?_, ?_⟩
  · rcases move.feed_eq with same | next
    · rwa [same]
    · rw [next]
      exact feed.next persists.roomy
  · intro other among
    rcases List.mem_or_eq_of_mem_set among with old | rfl
    · exact agents other old
    · exact move.agentIsOf feed (agents agent (List.mem_of_getElem? found))

theorem isOf_start (options : Options) (reader : Reader) :
    IsOf options ((recordsOf options reader).filterMap Record.event?) (start options reader) := by
  refine ⟨persists_start options reader, ?_, ?_⟩
  · intro record among event found
    exact List.mem_filterMap.mpr ⟨record, among, found⟩
  · intro agent among
    rw [List.eq_of_mem_replicate among]
    exact ⟨by simp [Stage.left], by simp [Stage.time?], by simp⟩

theorem IsOf.run (isOf : IsOf options events crew) (schedule : List Nat) :
    IsOf options events (crew.run options schedule) :=
  run_induction (fun isOf found move => isOf.move found move) isOf schedule

theorem exists_result {reader : Reader} (calm : reader.Faultless) (options : Options)
    (schedule : List Nat) :
    ∃ source, ((start options reader).run options schedule).result = .ok source := by
  have reads := Feed.reads_ofReader calm options.windowLength
  have stands : StreamCursor.Stands _ _
      ((start options reader).run options schedule).feed.cursor :=
    holds_run (StreamCursor.enduring_stands _ _) reads.stands schedule
  rw [result, stands.noFault]
  exact ⟨_, rfl⟩

theorem samples_of_result {source : StackSource} (result : crew.result = .ok source) :
    source.samples = (StackSource.arrange
      (crew.agents.flatMap fun agent => agent.output.samples.reverse)).2 := by
  unfold Crew.result at result
  split at result
  · cases result
  · cases result
    simp [gather, pool, Pool.states, List.flatMap_map]

end Crew

end

/-- Samples of a source, whatever text stands in the time columns of its trace, whatever the
options are and in whatever order its workers take their steps. Their times are those of some of
the events, counted from the earliest of these. They begin with zero and go up just when that
earliest time is finite and none is undefined, and so they do if all times of the trace are
finite. -/
theorem chronological_iff {options : Options} {reader : Reader} {schedule : List Nat}
    {source : StackSource}
    (result : ((Crew.start options reader).run options schedule).result = .ok source) :
    (∃ events : List Event,
        (∀ event ∈ events, event ∈ (recordsOf options reader).filterMap Record.event?) ∧
        (source.samples.map Sample.time).Perm (events.map fun event =>
          event.time - Seconds.earliest (events.map Event.time)) ∧
        (IsChronological source.samples ↔ events = [] ∨
          (Seconds.earliest (events.map Event.time)).isFinite = true ∧
            ∀ event ∈ events, event.time.isUndefined = false)) ∧
      ((∀ event ∈ (recordsOf options reader).filterMap Record.event?,
          event.time.isFinite = true) → IsChronological source.samples) := by
  have isOf := (Crew.isOf_start options reader).run schedule
  have gathered := Crew.samples_of_result result
  generalize raw : ((Crew.start options reader).run options schedule).agents.flatMap
    (fun agent => agent.output.samples.reverse) = samples at gathered
  have among : ∀ time ∈ samples.map Sample.time,
      time ∈ ((recordsOf options reader).filterMap Record.event?).map Event.time := by
    intro time there
    obtain ⟨sample, inside, rfl⟩ := List.mem_map.mp there
    obtain ⟨agent, working, its⟩ := List.mem_flatMap.mp (raw ▸ inside)
    exact (isOf.agents agent working).samples sample (List.mem_reverse.mp its)
  obtain ⟨events, times, inside⟩ := exists_map_time among
  have exact := StackSource.isChronological_arrange_events times
  rw [gathered]
  refine ⟨⟨events, inside, StackSource.times_arrange_events times, exact⟩, ?_⟩
  intro finite
  have all : ∀ event ∈ events, event.time.isFinite = true :=
    fun event chosen => finite event (inside event chosen)
  apply exact.mpr
  by_cases none : events = []
  · exact .inl none
  · exact .inr ⟨StackSource.isFinite_earliest none all,
      fun event chosen => Seconds.isUndefined_of_isFinite (all event chosen)⟩

theorem chronological_iff_relay :
    ∃ source, read twoWorkers (Reader.ofBytes ⟨relayText.toArray⟩) = .ok source ∧
      (recordsOf twoWorkers (Reader.ofBytes ⟨relayText.toArray⟩)).filterMap Record.event? =
        relayEvents ∧
      (relayEvents.map Event.time).Nodup ∧ IsChronological source.samples := by
  have calm := Reader.faultless_ofBytes ⟨relayText.toArray⟩
  have parsed : (recordsOf twoWorkers (Reader.ofBytes ⟨relayText.toArray⟩)).filterMap
      Record.event? = relayEvents := by
    rw [recordsOf, records_relay rfl rfl, filterMap_event]
  have finite : ∀ event ∈ relayEvents, event.time.isFinite = true := by decide +kernel
  have distinct : (relayEvents.map Event.time).Nodup := by decide +kernel
  obtain ⟨schedule, -, same⟩ :=
    Crew.exists_run_read twoWorkers (Reader.ofBytes ⟨relayText.toArray⟩)
  obtain ⟨source, result⟩ := Crew.exists_result calm twoWorkers schedule
  exact ⟨source, same.symm.trans result, parsed, distinct,
    (chronological_iff result).2 (by rwa [parsed])⟩

end Session

end ProfileTrace
