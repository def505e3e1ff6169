import Mathlib.Algebra.BigOperators.Group.List.Basic
import ProfileTrace.Proofs.Session.Faults
import ProfileTrace.Proofs.Session.Schedules
import ProfileTrace.Proofs.Session.Timed

/-! The limit of samples. A sample is kept for each event that was counted under the limit, and
each event of the trace is counted, waits with the one worker that took its chunk, or is in a
chunk still to be handed out, so that whatever the order of the workers' steps just as many
samples are kept as there are events or as there may be. -/

namespace ProfileTrace

def Feed.eventsLeft (accepts : String → Bool) (feed : Feed) : Nat :=
  ((feed.records accepts).filterMap Record.event?).length

theorem Feed.eventsLeft_of_none {feed : Feed} (none : feed.next.1 = none)
    (accepts : String → Bool) : feed.eventsLeft accepts = 0 := by
  have found : feed.next = (Option.none, feed.next.2) := Prod.ext none rfl
  rw [eventsLeft, records_none found]
  rfl

theorem Feed.eventsLeft_some {feed after : Feed} {chunk : Chunk}
    (found : feed.next = (some chunk, after)) (accepts : String → Bool) :
    feed.eventsLeft accepts =
      ((Record.ofText accepts chunk.bytes).filterMap Record.event?).length +
        after.eventsLeft accepts := by
  rw [eventsLeft, records_some found, List.filterMap_append, List.length_append, eventsLeft]

namespace Session

def Stage.waiting : Stage → Nat
  | .reading records | .climbing _ _ _ records | .joining _ _ _ _ records =>
      (records.filterMap Record.event?).length
  | .idle | .finished => 0

def Stage.inWork : Stage → Nat
  | .climbing .. | .joining .. => 1
  | .idle | .reading _ | .finished => 0

def Agent.claims (agent : Agent) : Nat := agent.output.samples.length + agent.stage.inWork

namespace Scene
variable {options : Options} {scene after : Scene}

theorem Move.claims_eq (move : Move options scene after) :
    after.agent.claims + scene.shared.accepted = scene.agent.claims + after.shared.accepted := by
  cases move with
  | claimed found room => simp [Agent.claims, Stage.inWork, Output.count]; omega
  | kept => simp [Agent.claims, Stage.inWork]
  | _ => simp [Agent.claims, Stage.inWork, Output.count]

theorem Move.accepted_le_most (move : Move options scene after) {most : Nat}
    (limit : options.maxSamples = some most) (room : scene.shared.accepted ≤ most) :
    after.shared.accepted ≤ most := by
  cases move with
  | claimed found free =>
    simp only [Options.isFull, limit, Option.any_some, decide_eq_false_iff_not] at free
    exact Nat.lt_of_not_le free
  | _ => exact room

/-- No event is lost while there is room for its sample, and none comes to be. -/
theorem Move.events_le (move : Move options scene after) (roomy : scene.feed.cursor.Roomy) :
    after.shared.accepted + after.agent.stage.waiting + after.feed.eventsLeft options.accepts ≤
        scene.shared.accepted + scene.agent.stage.waiting +
          scene.feed.eventsLeft options.accepts ∧
      (options.isFull scene.shared.accepted = false →
        after.shared.accepted + after.agent.stage.waiting + after.feed.eventsLeft options.accepts =
          scene.shared.accepted + scene.agent.stage.waiting +
            scene.feed.eventsLeft options.accepts) := by
  cases move with
  | @exhausted feed after shared output found =>
    have last := Feed.next_of_exhausted roomy (congrArg Prod.fst found)
    rw [found] at last
    rw [Feed.eventsLeft_of_none (congrArg Prod.fst found),
      Feed.eventsLeft_of_none (congrArg Prod.fst last)]
    exact ⟨Nat.le_refl _, fun _ => rfl⟩
  | chunk found =>
    rw [Feed.eventsLeft_some found options.accepts]
    simp only [Stage.waiting]
    omega
  | passed none => simp [Stage.waiting, List.filterMap_cons_none none]
  | refused found full =>
    simp only [Stage.waiting, full, Bool.true_eq_false, false_implies, and_true]
    omega
  | claimed found room =>
    simp only [Stage.waiting, List.filterMap_cons_some found, List.length_cons]
    omega
  | _ => simp [Stage.waiting]

theorem Move.records_eq (move : Move options scene after) (uncapped : options.maxSamples = none)
    (before : scene.agent.output.counts.records = scene.agent.claims) :
    after.agent.output.counts.records = after.agent.claims := by
  have counted : ∀ {record : Record} {event : Event}, record.event? = some event →
      record.counts.records = 1 := by
    intro record event found
    cases record with
    | event _ => rfl
    | filtered => cases found
  have passing : ∀ {record : Record}, record.event? = none → record.counts.records = 0 := by
    intro record none
    cases record with
    | event _ => cases none
    | filtered => rfl
  simp only [Agent.claims] at before ⊢
  cases move with
  | passed none =>
    simp only [Output.count, RecordCounts.merge, passing none, Stage.inWork] at before ⊢
    omega
  | refused found full => simp [Options.isFull, uncapped] at full
  | claimed found room =>
    simp only [Output.count, RecordCounts.merge, counted found, Stage.inWork] at before ⊢
    omega
  | kept =>
    simp only [Stage.inWork, List.length_cons] at before ⊢
    omega
  | _ => exact before

end Scene

def Crew.eventsKnown (options : Options) (crew : Crew) : Nat :=
  crew.shared.accepted + (crew.agents.map fun agent => agent.stage.waiting).sum +
    crew.feed.eventsLeft options.accepts

/-- What holds of the samples that are kept, when the trace has so many events. -/
structure Crew.Tallies (options : Options) (events : Nat) (crew : Crew) : Prop extends
    Crew.Persists options crew where
  claims : (crew.agents.map Agent.claims).sum = crew.shared.accepted
  limit : ∀ most, options.maxSamples = some most → crew.shared.accepted ≤ most
  supply : crew.eventsKnown options ≤ events
  whole : options.isFull crew.shared.accepted = false → crew.eventsKnown options = events
  records : options.maxSamples = none → ∀ agent ∈ crew.agents,
    agent.output.counts.records = agent.claims

namespace Crew
variable {options : Options} {crew : Crew} {events : Nat}

theorem tallies_start (options : Options) (reader : Reader) :
    Tallies options
      ((Feed.ofReader reader options.windowLength).eventsLeft options.accepts)
      (start options reader) := by
  have known : (start options reader).eventsKnown options =
      (Feed.ofReader reader options.windowLength).eventsLeft options.accepts := by
    simp [eventsKnown, start, Stage.waiting]
  refine ⟨persists_start options reader, ?_, fun most _ => Nat.zero_le most, Nat.le_of_eq known,
    fun _ => known, ?_⟩
  · simp [start, Agent.claims, Stage.inWork]
  · intro _ agent among
    rw [List.eq_of_mem_replicate among]
    rfl

theorem Tallies.move (tallies : Tallies options events crew) {i : Nat} {agent : Agent}
    (found : crew.agents[i]? = some agent) {after : Scene}
    (move : Scene.Move options ⟨crew.feed, crew.shared, agent⟩ after) :
    Tallies options events ⟨after.feed, after.shared, crew.agents.set i after.agent⟩ := by
  obtain ⟨persists, claims, limit, supply, whole, records⟩ := tallies
  have own := move.claims_eq
  have sum := sum_map_set Agent.claims found after.agent
  have waiting := sum_map_set (fun agent => agent.stage.waiting) found after.agent
  obtain ⟨le, eq⟩ := move.events_le persists.roomy
  have mono := move.accepted_le
  simp only [eventsKnown] at own waiting le eq mono supply whole ⊢
  refine ⟨persists.move found move, ?_, ?_, ?_, ?_, ?_⟩
  · simp only
    omega
  · exact fun most capped => move.accepted_le_most capped (limit most capped)
  · simp only [eventsKnown]
    omega
  · intro room
    -- what is full stays full, so that there was room before as well
    have before : options.isFull crew.shared.accepted = false := by
      by_contra full
      have full := isFull_mono mono (by simpa using full)
      simp [full] at room
    have all := whole before
    have moved := eq before
    simp only [eventsKnown]
    omega
  · intro uncapped other among
    rcases List.mem_or_eq_of_mem_set among with old | rfl
    · exact records uncapped other old
    · exact move.records_eq uncapped (records uncapped agent (List.mem_of_getElem? found))

theorem Tallies.run (tallies : Tallies options events crew) (schedule : List Nat) :
    Tallies options events (crew.run options schedule) :=
  run_induction (fun tallies found move => tallies.move found move) tallies schedule

end Crew

end Session

def Options.sampleCount (options : Options) (events : Nat) : Nat :=
  match options.maxSamples with
  | none => events
  | some most => min most events

theorem Options.kept_eq_take (options : Options) (events : List Event) :
    options.kept 0 events = events.take (options.sampleCount events.length) := by
  unfold kept sampleCount
  cases options.maxSamples with
  | none => exact List.take_length.symm
  | some most =>
    simp only [Nat.sub_zero]
    rcases Nat.le_total most events.length with few | many
    · rw [Nat.min_eq_left few]
    · rw [Nat.min_eq_right many, List.take_length, List.take_of_length_le many]

namespace Session

namespace Crew
variable {options : Options} {crew : Crew} {events : Nat}

theorem Tallies.accepted_eq (tallies : Tallies options events crew) (done : crew.IsFinished)
    (isOver : IsOver options crew.feed crew.shared) :
    crew.shared.accepted = options.sampleCount events := by
  obtain ⟨-, -, limit, supply, whole, -⟩ := tallies
  have idle : (crew.agents.map fun agent => agent.stage.waiting).sum = 0 := by
    apply List.sum_eq_zero
    intro waiting among
    obtain ⟨agent, inside, rfl⟩ := List.mem_map.mp among
    have stopped := done agent inside
    cases stage : agent.stage with
    | finished => rfl
    | _ => simp [stage, Stage.isWorking] at stopped
  rw [eventsKnown, idle] at supply whole
  unfold Options.sampleCount
  unfold Options.isFull at whole
  rcases isOver with none | full
  · rw [Feed.eventsLeft_of_none none] at supply whole
    cases most : options.maxSamples with
    | none =>
      have all := whole (by simp [most])
      simp only
      omega
    | some most' =>
      have room := limit most' most
      simp only [most, Option.any_some, decide_eq_false_iff_not] at whole ⊢
      omega
  · cases most : options.maxSamples with
    | none => simp [Options.isFull, most] at full
    | some most' =>
      have room := limit most' most
      simp only [Options.isFull, most, Option.any_some, decide_eq_true_eq] at full ⊢
      omega

theorem Tallies.length_samples (tallies : Tallies options events crew) (done : crew.IsFinished) :
    (gather crew.pool).samples.length = crew.shared.accepted := by
  have each : crew.agents.map Agent.claims =
      crew.agents.map fun agent => agent.output.samples.reverse.length := by
    apply List.map_congr_left
    intro agent among
    have stopped := done agent among
    rw [List.length_reverse]
    unfold Agent.claims
    cases stage : agent.stage with
    | finished => rfl
    | _ => simp [stage, Stage.isWorking] at stopped
  have samples : (gather crew.pool).samples = (StackSource.arrange
      (crew.agents.flatMap fun agent => agent.output.samples.reverse)).2 := by
    simp [gather, pool, Pool.states, List.flatMap_map]
  rw [samples, (StackSource.snd_arrange_perm _).length_eq, List.length_map, List.length_flatMap,
    ← each, tallies.claims]

theorem Tallies.records_eq (tallies : Tallies options events crew)
    (uncapped : options.maxSamples = none) :
    (gather crew.pool).counts.records = crew.shared.accepted := by
  have merged : ∀ (agents : List Agent) (total : RecordCounts),
      (agents.foldl (fun total agent => total.merge agent.output.counts) total).records =
        total.records + (agents.map fun agent => agent.output.counts.records).sum := by
    intro agents
    induction agents with
    | nil => exact fun _ => rfl
    | cons agent agents ih =>
      intro total
      rw [List.foldl_cons, ih, List.map_cons, List.sum_cons, ← Nat.add_assoc]
      rfl
  have counts : (gather crew.pool).counts =
      crew.agents.foldl (fun total agent => total.merge agent.output.counts) {} := by
    simp [gather, pool, Pool.states, List.foldl_map]
  have each : (crew.agents.map fun agent => agent.output.counts.records) =
      crew.agents.map Agent.claims :=
    List.map_congr_left fun agent among => tallies.records uncapped agent among
  rw [counts, merged, each, tallies.claims]
  exact Nat.zero_add _

end Crew

/-! ### One worker -/

/-- The source has the samples of these events, one after the other, and tells the blocked time
that these events show. -/
structure Follows (options : Options) (events : List Event) (source : StackSource) : Prop where
  samples : ∃ samples, source.samples = (StackSource.arrange samples).2 ∧
    samples.length = events.length ∧
    ∀ i event, events[i]? = some event → ∃ sample, samples[i]? = some sample ∧
      sample.time = event.time ∧
      (source.frames.size ≤ 0x100000000 → source.nodes.size ≤ 0x80000000 →
        (source.callStack sample.stack).map Frame.displayKey =
          if options.threadTime then
            (stateFrames (events.take (i + 1)) event).map Frame.displayKey
          else event.stackKeys)
  blocked : source.blocked =
    if options.threadTime then
      some ((ThreadStates.ofEvents events).report.rebase
        (Seconds.earliest (events.map Event.time)))
    else none

theorem IsOfRun.follows {options : Options} {events : List Event} {source : StackSource}
    (isOf : IsOfRun (keptRun options.statesAtFirst events) source) :
    Follows options events source := by
  have samples := times_keptRun options.statesAtFirst events
  refine ⟨⟨_, isOf.samples, ?_, ?_⟩, ?_⟩
  · rw [List.length_reverse, length_samples_keptRun]
  · intro i event found
    refine ⟨_, getElem?_samples_keptRun options.statesAtFirst found, rfl, ?_⟩
    intro fewFrames few
    rw [callStack_keptRun found isOf.frames isOf.nodes fewFrames few]
    unfold Options.statesAtFirst
    split
    · rw [framesAfter_take found]
    · rfl
  · rw [isOf.blocked, StackSource.fst_arrange, samples, states_keptRun]
    unfold Options.statesAtFirst
    split <;> rfl

/-! ### The session -/

/-- The limit of samples is met exactly in whatever order the workers take their steps. A worker
that is done found the trace without a further chunk or as many samples counted as there may be.
At the end, which can always be reached, there are as many samples as there are events or as there
may be; without a limit this is the number of records; and one worker has those of the first
events of the trace, and has observed just these for blocked time. -/
theorem limit_of_any_schedule {reader : Reader} (calm : reader.Faultless) (options : Options)
    {events : List Event} (parsed : (recordsOf options reader).filterMap Record.event? = events) :
    (∀ schedule, ∃ more,
        ((Crew.start options reader).run options (schedule ++ more)).IsFinished) ∧
      (∃ schedule, ((Crew.start options reader).run options schedule).IsFinished ∧
        ((Crew.start options reader).run options schedule).result = read options reader) ∧
      (∀ schedule, ∀ agent ∈ ((Crew.start options reader).run options schedule).agents,
        agent.stage = .finished →
          ((Crew.start options reader).run options schedule).feed.chunks.1 = [] ∨
          options.maxSamples =
            some ((Crew.start options reader).run options schedule).shared.accepted) ∧
      ∀ schedule, ((Crew.start options reader).run options schedule).IsFinished →
        ∃ source, ((Crew.start options reader).run options schedule).result = .ok source ∧
          source.samples.length =
            (match options.maxSamples with
            | none => events.length
            | some most => min most events.length) ∧
          (options.maxSamples = none → source.samples.length = source.counts.records) ∧
          (options.effectiveWorkers = 1 →
            Follows options (events.take source.samples.length) source) := by
  have count : events.length =
      (Feed.ofReader reader options.windowLength).eventsLeft options.accepts := by
    rw [← parsed]
    rfl
  have tallies : ∀ schedule,
      Crew.Tallies options events.length ((Crew.start options reader).run options schedule) := by
    intro schedule
    rw [count]
    exact (Crew.tallies_start options reader).run schedule
  have sound : ∀ schedule,
      ((Crew.start options reader).run options schedule).feed.cursor.fault = none := by
    intro schedule
    have reads := Feed.reads_ofReader calm options.windowLength
    have stands : StreamCursor.Stands _ _
        ((Crew.start options reader).run options schedule).feed.cursor :=
      Crew.holds_run (StreamCursor.enduring_stands _ _) reads.stands schedule
    exact stands.noFault
  refine ⟨Crew.exists_run_on options _, Crew.exists_run_read options reader, ?_, ?_⟩
  · intro schedule agent among stopped
    have isOver := (tallies schedule).isOver agent among (by rw [stopped]; rfl)
    rcases isOver with none | full
    · refine .inl ?_
      rw [Feed.fst_next, List.head?_eq_none_iff] at none
      exact none
    · refine .inr ?_
      unfold Options.isFull at full
      cases most : options.maxSamples with
      | none => simp [most] at full
      | some most' =>
        have room := (tallies schedule).limit most' most
        simp only [most, Option.any_some, decide_eq_true_eq] at full
        rw [Nat.le_antisymm full room]
  · intro schedule done
    have accepted := (tallies schedule).accepted_eq done (Crew.isOver_of_finished done)
    have samples := (tallies schedule).length_samples done
    refine ⟨gather ((Crew.start options reader).run options schedule).pool, ?_, ?_, ?_, ?_⟩
    · rw [Crew.result, sound schedule]
    · exact samples.trans accepted
    · intro uncapped
      rw [samples, (tallies schedule).records_eq uncapped]
    · intro single
      obtain ⟨source, found, isOf⟩ := isOfRun_of_single calm single
      have same := Crew.result_of_single single done
      rw [found, Crew.result, sound schedule, Except.ok.injEq] at same
      have first : observed options reader = events.take (gather
          ((Crew.start options reader).run options schedule).pool).samples.length := by
        rw [samples, accepted, ← Options.kept_eq_take, ← parsed, observed]
      rw [← first, same]
      exact isOf.follows

/-- Two workers that may keep three samples of a trace of six events. -/
theorem limit_of_two_workers :
    (Reader.ofBytes ⟨relayText.toArray⟩).Faultless ∧
      (recordsOf { twoWorkers with maxSamples := some 3 }
          (Reader.ofBytes ⟨relayText.toArray⟩)).filterMap Record.event? = relayEvents ∧
      relayEvents.length = 6 ∧
      ∃ source, read { twoWorkers with maxSamples := some 3 }
          (Reader.ofBytes ⟨relayText.toArray⟩) = .ok source ∧
        source.samples.length = 3 := by
  have calm := Reader.faultless_ofBytes ⟨relayText.toArray⟩
  have parsed : (recordsOf { twoWorkers with maxSamples := some 3 }
      (Reader.ofBytes ⟨relayText.toArray⟩)).filterMap Record.event? = relayEvents := by
    rw [recordsOf, records_relay rfl rfl, filterMap_event]
  obtain ⟨-, ⟨schedule, done, same⟩, -, ends⟩ := limit_of_any_schedule calm _ parsed
  obtain ⟨source, found, samples, -⟩ := ends schedule done
  exact ⟨calm, parsed, rfl, source, same.symm.trans found, samples⟩

end Session

end ProfileTrace
