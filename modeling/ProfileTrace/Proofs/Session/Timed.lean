import ProfileTrace.Proofs.Chunk.Truncation
import ProfileTrace.Proofs.Record.Independence
import ProfileTrace.Proofs.Session.Keeping

/-! Sessions for blocked time, in which the length of the windows does not show. Cutting a stack
short takes nothing that the states of the threads are told from, so that samples and periods are
those of the events of the whole trace, one after the other. -/

namespace ProfileTrace

/-- What blocked time asks of an event: all but the code of its stack. -/
def Event.timed (event : Event) : Event :=
  { event with frames := event.rootFrames, truncated := false }

theorem Event.rootFrames_timed (event : Event) : event.timed.rootFrames = event.rootFrames := by
  have length : event.rootFrames.length - 2 = 0 := by
    rw [rootFrames, List.length_drop]
    omega
  change event.rootFrames.drop (event.rootFrames.length - 2) = event.rootFrames
  rw [length, List.drop_zero]

theorem Event.IsPartOf.timed_eq {part whole : Event} (isPart : part.IsPartOf whole) :
    part.timed = whole.timed := by
  calc
    part.timed = { ({ part with frames := whole.frames, truncated := whole.truncated } : Event) with
        frames := part.rootFrames, truncated := false } := rfl
    _ = { whole with frames := part.rootFrames, truncated := false } := by rw [isPart.said]
    _ = whole.timed := by
      rw [isPart.roots, ← isPart.wholeRoots]
      rfl

theorem Event.map_timed_eq {parts wholes : List Event}
    (areParts : List.Forall₂ Event.IsPartOf parts wholes) :
    parts.map Event.timed = wholes.map Event.timed := by
  induction areParts with
  | nil => rfl
  | cons first others ih => rw [List.map_cons, List.map_cons, first.timed_eq, ih]

theorem Options.map_kept (options : Options) (accepted : Nat) (events : List Event)
    (f : Event → Event) : (options.kept accepted events).map f =
      options.kept accepted (events.map f) := by
  unfold kept
  split
  · rfl
  · exact List.map_take

namespace Session
open CallTree (Spells Within)
open ThreadStates (ofEvents ofEvents_concat)

variable {options : Options}

/-! ### The samples of events -/

def timedRun (events : List Event) : Shared × Output :=
  keepAll events {} { states := some {} }

theorem timedRun_concat (events : List Event) (event : Event) :
    timedRun (events ++ [event]) = keep event (timedRun events).1 (timedRun events).2 :=
  List.foldl_append

theorem states_timedRun (events : List Event) :
    (timedRun events).2.states = some (ofEvents events) :=
  states_keepAll events {} { states := some {} }

theorem keep_timed (event : Event) (shared : Shared) {output : Output} {states : ThreadStates}
    (timed : output.states = some states) :
    keep event.timed shared output = keep event shared output := by
  have same : framesOf event.timed output.states = framesOf event output.states := by
    rw [timed]
    simp only [framesOf, Event.rootFrames_timed]
    rfl
  simp only [keep, same]
  rfl

theorem timedRun_map_timed (events : List Event) :
    timedRun (events.map Event.timed) = timedRun events := by
  induction events using List.reverseRecOn with
  | nil => rfl
  | append_singleton events event ih =>
    rw [List.map_append, List.map_singleton, timedRun_concat, timedRun_concat, ih,
      keep_timed event _ (states_timedRun events)]

/-- The frames of a sample for blocked time, when these events and this last one were observed. -/
def stateFrames (observed : List Event) (event : Event) : List Frame :=
  .state ((ofEvents observed).stateOf event.tid) :: event.rootFrames

theorem framesAfter_some (observed : List Event) (event : Event) :
    framesAfter (some {}) observed event = stateFrames (observed ++ [event]) event := by
  rw [stateFrames, ofEvents_concat]
  rfl

theorem framesAfter_take {events : List Event} {i : Nat} {event : Event}
    (found : events[i]? = some event) :
    framesAfter (some {}) (events.take i) event = stateFrames (events.take (i + 1)) event := by
  rw [framesAfter_some, List.take_add_one, found]
  rfl

theorem length_samples_timedRun (events : List Event) :
    (timedRun events).2.samples.length = events.length :=
  length_samples_keptRun (some {}) events

theorem getElem?_samples_timedRun {events : List Event} {i : Nat} {event : Event}
    (found : events[i]? = some event) : (timedRun events).2.samples.reverse[i]? =
      some ⟨((timedRun (events.take i)).1.tree.internStack
        (stateFrames (events.take (i + 1)) event) .root).1, event.time⟩ := by
  rw [← framesAfter_take found]
  exact getElem?_samples_keptRun (some {}) found

/-- What a tree for blocked time may hold: each event's thread and process, in either state. -/
def stateKeys (events : List Event) : List (List String) :=
  events.flatMap fun event => [ThreadState.blocked, .cpu].map fun activity =>
    (Frame.state activity :: event.rootFrames).map Frame.displayKey

theorem mem_stateKeys {events : List Event} {event : Event} (among : event ∈ events)
    (observed : List Event) :
    (stateFrames observed event).map Frame.displayKey ∈ stateKeys events := by
  refine List.mem_flatMap.mpr ⟨event, among, List.mem_map.mpr ⟨_, ?_, rfl⟩⟩
  cases (ofEvents observed).stateOf event.tid <;> decide

theorem within_timedRun (all : List (List String)) {events : List Event}
    (allowed : ∀ event ∈ events, ∀ observed,
      (stateFrames observed event).map Frame.displayKey ∈ all)
    (fewFrames : (timedRun events).1.tree.frames.entries.size ≤ 0x100000000)
    (few : (timedRun events).1.tree.nodes.entries.size ≤ 0x80000000) :
    Within (CallTree.keysOf all) (CallTree.pathsOf all) (timedRun events).1.tree := by
  refine within_keptRun (some {}) all ?_ fewFrames few
  intro observed event part
  rw [framesAfter_some]
  exact allowed event (part.subset (by simp)) _

theorem spells_timedRun {events : List Event} {i : Nat} {event : Event}
    (found : events[i]? = some event)
    (fewFrames : (timedRun events).1.tree.frames.entries.size ≤ 0x100000000)
    (few : (timedRun events).1.tree.nodes.entries.size ≤ 0x80000000) :
    Spells (timedRun events).1.tree ((timedRun (events.take i)).1.tree.internStack
        (stateFrames (events.take (i + 1)) event) .root).1
      ((stateFrames (events.take (i + 1)) event).map Frame.displayKey) := by
  rw [← framesAfter_take found]
  exact spells_keptRun (some {}) found fewFrames few

/-! ### Windows of two lengths -/

def observedAtOnce (options : Options) (reader : Reader) : List Event :=
  options.kept 0 ((Record.ofText options.accepts reader.ahead).filterMap Record.event?)

theorem filterMap_ofText (accepts : String → Bool) (text : List UInt8) :
    (Record.ofText accepts text).filterMap Record.event? =
      (Record.eventsOfText text).filter fun event => accepts event.name := by
  rw [Record.ofText_eq_map_refuse, Record.ofText_all, Record.filterMap_event?_refuse,
    Record.eventsOfText_eq]

theorem filterMap_recordsOf (options : Options) (reader : Reader) :
    (recordsOf options reader).filterMap Record.event? =
      ((Feed.ofReader reader options.windowLength).chunks.1.flatMap fun chunk =>
        Record.eventsOfText chunk.bytes).filter fun event => options.accepts event.name := by
  rw [recordsOf, Feed.records, List.filterMap_flatMap, List.filter_flatMap]
  simp only [filterMap_ofText]

theorem filter_map_timed (accepts : String → Bool) (events : List Event) :
    (events.filter fun event => accepts event.name).map Event.timed =
      (events.map Event.timed).filter fun event => accepts event.name := by
  rw [List.filter_map]
  rfl

theorem rootFrames_of_mem {accepts : String → Bool} {text : List UInt8} {event : Event}
    (among : event ∈ (Record.ofText accepts text).filterMap Record.event?) :
    event.rootFrames = [.thread event.tid, .process event.command] := by
  rw [filterMap_ofText, Record.eventsOfText_eq] at among
  obtain ⟨layout, -, rfl⟩ := List.mem_map.mp (List.mem_filter.mp among).1
  exact (Headline.isPartOf_self _ _).wholeRoots

theorem rooted_of_mem_observedAtOnce {reader : Reader} {event : Event}
    (among : event ∈ observedAtOnce options reader) :
    event.rootFrames = [.thread event.tid, .process event.command] := by
  rw [observedAtOnce, Options.kept] at among
  split at among
  · exact rootFrames_of_mem among
  · exact rootFrames_of_mem (List.mem_of_mem_take among)

/-- Whatever the windows are, the chunks have the events of the text but for what is cut off. -/
theorem map_timed_chunks {reader : Reader} (calm : reader.Faultless) {windowLength : Nat}
    {records : List RecordLayout}
    (written : Written (max windowLength leastCapacity) records reader.ahead) :
    ((Feed.ofReader reader windowLength).chunks.1.flatMap fun chunk =>
        Record.eventsOfText chunk.bytes).map Event.timed =
      (Record.eventsOfText reader.ahead).map Event.timed := by
  have run := (Feed.reads_ofReader calm windowLength).handouts.1
  rw [Feed.ahead_ofReader calm] at run
  rw [Record.eventsOfText_eq reader.ahead, written.layoutsOf_eq]
  exact Event.map_timed_eq (run.written (Nat.le_max_right _ _) written).1

theorem timedRun_observed {reader : Reader} (calm : reader.Faultless) {records : List RecordLayout}
    (written : Written (max options.windowLength leastCapacity) records reader.ahead) :
    timedRun (observed options reader) = timedRun (observedAtOnce options reader) := by
  -- what windows take from the events is dropped on both sides before they are compared
  rw [← timedRun_map_timed, ← timedRun_map_timed (observedAtOnce options reader)]
  rw [observed, observedAtOnce, Options.map_kept, Options.map_kept, filterMap_recordsOf,
    filterMap_ofText, filter_map_timed, filter_map_timed, map_timed_chunks calm written]

theorem isOfRun_of_timed {reader : Reader} (calm : reader.Faultless)
    (timed : options.threadTime = true) :
    ∃ source, read options reader = .ok source ∧
      IsOfRun (timedRun (observed options reader)) source := by
  have single : options.effectiveWorkers = 1 := by rw [Options.effectiveWorkers, if_pos timed]
  obtain ⟨source, found, isOf⟩ := isOfRun_of_single calm single
  rw [Options.statesAtFirst, if_pos timed] at isOf
  exact ⟨source, found, isOf⟩

/-- The sample of one of the events: it has its time, and stands for the state of its thread just
after that event, the thread and the process. -/
structure ShowsState (events : List Event) (i : Nat) (event : Event) (source : StackSource)
    (sample : Sample) : Prop where
  time : sample.time = event.time
  stack : sample.stack = ((timedRun (events.take i)).1.tree.internStack
    [.state ((ofEvents (events.take (i + 1))).stateOf event.tid), .thread event.tid,
      .process event.command] .root).1
  callStack : source.frames.size ≤ 0x100000000 → source.nodes.size ≤ 0x80000000 →
    (source.callStack sample.stack).map Frame.displayKey =
      [if (ofEvents (events.take (i + 1))).blocked.contains event.tid then "Blocked" else "CPU",
        "Thread (" ++ toString event.tid ++ ")", event.command]

theorem IsOfRun.exists_showsState {events : List Event} {source : StackSource}
    (isOf : IsOfRun (timedRun events) source)
    (rooted : ∀ event ∈ events, event.rootFrames = [.thread event.tid, .process event.command])
    {i : Nat} {event : Event} (found : events[i]? = some event) :
    ∃ sample, (timedRun events).2.samples.reverse[i]? = some sample ∧
      ShowsState events i event source sample := by
  have frames : stateFrames (events.take (i + 1)) event =
      [.state ((ofEvents (events.take (i + 1))).stateOf event.tid), .thread event.tid,
        .process event.command] := by
    rw [stateFrames, rooted event (List.mem_of_getElem? found)]
  have given := getElem?_samples_timedRun found
  rw [frames] at given
  refine ⟨_, given, ?_⟩
  constructor
  case time => rfl
  case stack => dsimp only
  case callStack =>
    intro fewFrames few
    rw [isOf.frames] at fewFrames
    rw [isOf.nodes] at few
    have within := within_timedRun (stateKeys events) (fun event => mem_stateKeys) fewFrames few
    have spells := spells_timedRun found fewFrames few
    rw [frames] at spells
    rw [spells.callStack within.outward isOf.frames isOf.nodes, ThreadStates.stateOf]
    split <;> rfl

/-- For blocked time the length of the windows does not show in the result, even when stacks are
cut short. -/
theorem timed_of_any_window {reader : Reader} (calm : reader.Faultless)
    {records : List RecordLayout} (wellFormed : ∀ record ∈ records, record.WellFormed)
    (text : reader.ahead = records.flatMap RecordLayout.bytes)
    (noMark : reader.ahead.take 3 ≠ Record.byteOrderMark) {options : Options}
    (timed : options.threadTime = true) {first second : Nat}
    (fits : ∀ record ∈ records, record.header.length + 1 ≤ max first leastCapacity - 258)
    (alsoFits : ∀ record ∈ records, record.header.length + 1 ≤ max second leastCapacity - 258) :
    ∃ source other, read { options with windowLength := first } reader = .ok source ∧
      read { options with windowLength := second } reader = .ok other ∧
      source.frames = other.frames ∧ source.nodes = other.nodes ∧
      source.samples = other.samples ∧ source.blocked = other.blocked ∧
      ∃ samples, source.samples = (StackSource.arrange samples).2 ∧
        samples.length = (observedAtOnce options reader).length ∧
        ∀ i event, (observedAtOnce options reader)[i]? = some event →
          ∃ sample, samples[i]? = some sample ∧
            ShowsState (observedAtOnce options reader) i event source sample := by
  have written {windowLength : Nat}
      (short : ∀ record ∈ records,
        record.header.length + 1 ≤ max windowLength leastCapacity - 258) :
      Written (max windowLength leastCapacity) records reader.ahead :=
    { wellFormed, short, bytes := ⟨0, Nat.zero_le 2, text⟩, noMark := if_neg noMark }
  have same {windowLength : Nat}
      (short : ∀ record ∈ records,
        record.header.length + 1 ≤ max windowLength leastCapacity - 258) :
      ∃ source, read { options with windowLength } reader = .ok source ∧
        IsOfRun (timedRun (observedAtOnce options reader)) source := by
    have sized : ({ options with windowLength } : Options).threadTime = true := timed
    have run : timedRun (observed { options with windowLength } reader) =
        timedRun (observedAtOnce options reader) :=
      timedRun_observed calm (written short)
    obtain ⟨source, found, isOf⟩ := isOfRun_of_timed calm sized
    rw [run] at isOf
    exact ⟨source, found, isOf⟩
  obtain ⟨source, found, isOf⟩ := same fits
  obtain ⟨other, otherFound, otherIsOf⟩ := same alsoFits
  refine ⟨source, other, found, otherFound, ?_, ?_, ?_, ?_, _, isOf.samples, ?_, ?_⟩
  · rw [isOf.frames, otherIsOf.frames]
  · rw [isOf.nodes, otherIsOf.nodes]
  · rw [isOf.samples, otherIsOf.samples]
  · rw [isOf.blocked, otherIsOf.blocked]
  · rw [List.length_reverse, length_samples_timedRun]
  · intro i event among
    exact isOf.exists_showsState (fun event => rooted_of_mem_observedAtOnce) among

theorem timed_of_any_window_deepRecord :
    (Reader.ofBytes ⟨deepRecord.bytes.toArray⟩).Faultless ∧ deepRecord.WellFormed ∧
      deepRecord.bytes.take 3 ≠ Record.byteOrderMark ∧
      deepRecord.header.length + 1 ≤ max 0 leastCapacity - 258 ∧
      deepRecord.header.length + 1 ≤ max 4096 leastCapacity - 258 ∧
      ∃ source other,
        read { threadTime := true, windowLength := 0 }
          (Reader.ofBytes ⟨deepRecord.bytes.toArray⟩) = .ok source ∧
        read { threadTime := true, windowLength := 4096 }
          (Reader.ofBytes ⟨deepRecord.bytes.toArray⟩) = .ok other ∧
        source.frames = other.frames ∧ source.nodes = other.nodes ∧
        source.samples = other.samples ∧ source.blocked = other.blocked := by
  have calm := Reader.faultless_ofBytes ⟨deepRecord.bytes.toArray⟩
  have ahead : (Reader.ofBytes ⟨deepRecord.bytes.toArray⟩).ahead = deepRecord.bytes := rfl
  have noMark : deepRecord.bytes.take 3 ≠ Record.byteOrderMark := by
    have first : deepRecord.bytes.take 3 = [0x61, 0x20, 0x31] := rfl
    rw [first]
    decide
  have each : ∀ record ∈ [deepRecord], record.WellFormed := by
    simpa using wellFormed_deepRecord
  have fits : deepRecord.header.length + 1 ≤ max 0 leastCapacity - 258 := by decide
  have alsoFits : deepRecord.header.length + 1 ≤ max 4096 leastCapacity - 258 := by decide
  have eachFits : ∀ record ∈ [deepRecord],
      record.header.length + 1 ≤ max 0 leastCapacity - 258 :=
    List.forall_mem_singleton.mpr fits
  have eachAlsoFits : ∀ record ∈ [deepRecord],
      record.header.length + 1 ≤ max 4096 leastCapacity - 258 :=
    List.forall_mem_singleton.mpr alsoFits
  obtain ⟨source, other, found, otherFound, frames, nodes, samples, blocked, -⟩ :=
    timed_of_any_window calm each (by simp [ahead]) (by rwa [ahead])
      (rfl : ({ threadTime := true } : Options).threadTime = true) eachFits eachAlsoFits
  exact ⟨calm, wellFormed_deepRecord, noMark, fits, alsoFits, source, other, found, otherFound,
    frames, nodes, samples, blocked⟩

end Session

end ProfileTrace
