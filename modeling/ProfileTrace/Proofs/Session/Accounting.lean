import ProfileTrace.Proofs.CallTree.Spelling
import ProfileTrace.Proofs.Chunk.Handout
import ProfileTrace.Proofs.Record.Counts
import ProfileTrace.Proofs.Session.Steps

/-! What the workers of a session have between them at any time. Each record of the trace is in
a chunk that is not handed out, or with the one worker that took it: still to be read, or read
and counted, and then its event is in work or has its sample. -/

namespace ProfileTrace

def Event.stackKeys (event : Event) : List String := event.frames.map Frame.displayKey

structure Event.IsWithin (frameKeys : Finset String) (paths : Finset (List String)) (event : Event) :
    Prop where
  frames : ∀ key ∈ event.stackKeys, key ∈ frameKeys
  paths : ∀ path, path <:+ event.stackKeys → path ≠ [] → path ∈ paths

def Feed.records (accepts : String → Bool) (feed : Feed) : List Record :=
  feed.chunks.1.flatMap fun chunk => Record.ofText accepts chunk.bytes

theorem Feed.records_none {feed after : Feed} (found : feed.next = (none, after))
    (accepts : String → Bool) : feed.records accepts = [] := by
  rw [records, chunks_none found, List.flatMap_nil]

theorem Feed.records_some {feed after : Feed} {chunk : Chunk}
    (found : feed.next = (some chunk, after)) (accepts : String → Bool) :
    feed.records accepts = Record.ofText accepts chunk.bytes ++ after.records accepts := by
  rw [records, chunks_some found, List.flatMap_cons, records]

namespace Session
open CallTree (Grows Spells Within)

def Shows (tree : CallTree) (sample : Sample) (event : Event) : Prop :=
  sample.time = event.time ∧ Spells tree sample.stack event.stackKeys

/-- What a worker is at: the event in work, if there is one, and the records still to be read. -/
inductive Stage.Holds (tree : CallTree) : Stage → List Event → List Record → Prop where
  | idle : Holds tree .idle [] []
  | reading (records : List Record) : Holds tree (.reading records) [] records
  | climbing {event : Event} {frames : List Frame} {caller : StackId} {keys : List String}
      (records : List Record) (outer : Spells tree caller keys)
      (whole : event.stackKeys = (frames.map Frame.displayKey).reverse ++ keys) :
      Holds tree (.climbing event.time frames caller records) [event] records
  | joining {event : Event} {frame : FrameId} {named : Frame} {frames : List Frame}
      {caller : StackId} {keys : List String} (records : List Record)
      (there : tree.frames.entries[frame.index]? = some named) (outer : Spells tree caller keys)
      (whole : event.stackKeys =
        (frames.map Frame.displayKey).reverse ++ named.displayKey :: keys) :
      Holds tree (.joining event.time frame frames caller records) [event] records
  | finished : Holds tree .finished [] []

/-- A worker that has taken these records has counted those that it has read, and its samples
show their events but for the one in work. -/
inductive Agent.Accounts (tree : CallTree) (agent : Agent) : List Record → Prop where
  | intro {read left : List Record} {kept current : List Event}
      (holds : agent.stage.Holds tree current left)
      (counts : agent.output.counts = Record.countAll read)
      (events : read.filterMap Record.event? = kept.reverse ++ current)
      (samples : List.Forall₂ (Shows tree) agent.output.samples kept)
      (states : agent.output.states = none) : Accounts tree agent (read ++ left)

section
variable {tree grown : CallTree}

theorem Stage.Holds.grow {stage : Stage} {events : List Event} {records : List Record}
    (holds : stage.Holds tree events records) (grows : Grows tree grown) :
    stage.Holds grown events records := by
  cases holds with
  | idle => exact .idle
  | reading records => exact .reading records
  | climbing records outer whole => exact .climbing records (outer.grow grows) whole
  | joining records there outer whole =>
    exact .joining records (grows.frames _ _ there) (outer.grow grows) whole
  | finished => exact .finished

theorem Shows.grow {sample : Sample} {event : Event} (shown : Shows tree sample event)
    (grows : Grows tree grown) : Shows grown sample event :=
  ⟨shown.1, shown.2.grow grows⟩

theorem Agent.Accounts.grow {agent : Agent} {share : List Record}
    (accounts : agent.Accounts tree share) (grows : Grows tree grown) :
    agent.Accounts grown share := by
  cases accounts with
  | intro holds counts events samples states =>
    exact .intro (holds.grow grows) counts events
      (samples.imp fun _ _ shown => Shows.grow shown grows) states

end

structure Scene.Inv (content : List UInt8) (capacity : Nat) (frameKeys : Finset String)
    (paths : Finset (List String)) (share : List Record) (scene : Scene) : Prop where
  reads : Feed.Reads content capacity scene.feed
  within : Within frameKeys paths scene.shared.tree
  accounts : scene.agent.Accounts scene.shared.tree share
  ended : scene.agent.stage.isWorking = false → scene.feed.ahead content = []

/-- A step of a worker leads on: the records that it has then are its own ones and those that it
took from the feed, and for the others the tree only grows. -/
structure Scene.LeadsTo (content : List UInt8) (capacity : Nat) (frameKeys : Finset String)
    (paths : Finset (List String)) (accepts : String → Bool) (share : List Record) (scene : Scene)
    (taken : List Record) (after : Scene) : Prop where
  inv : after.Inv content capacity frameKeys paths taken
  grows : Grows scene.shared.tree after.shared.tree
  records : taken ++ after.feed.records accepts = share ++ scene.feed.records accepts
  ended : scene.feed.ahead content = [] → after.feed.ahead content = []

section
variable {content : List UInt8} {capacity : Nat} {frameKeys : Finset String}
  {paths : Finset (List String)} {share : List Record} {scene : Scene} {options : Options}

theorem records_of_ended {feed : Feed} (accepts : String → Bool)
    (reads : Feed.Reads content capacity feed) (ended : feed.ahead content = []) :
    feed.records accepts = [] := by
  obtain ⟨after, none⟩ := reads.next_of_nil ended
  exact Feed.records_none none accepts

namespace Scene

theorem Inv.leadsTo_of_same (accepts : String → Bool) {after : Scene} (feed : after.feed = scene.feed)
    (grows : Grows scene.shared.tree after.shared.tree)
    (inv : after.Inv content capacity frameKeys paths share) :
    LeadsTo content capacity frameKeys paths accepts share scene share after :=
  ⟨inv, grows, by rw [feed], by rw [feed]; exact id⟩

theorem Inv.takeChunk {feed : Feed} {shared : Shared} {output : Output}
    (inv : Inv content capacity frameKeys paths share ⟨feed, shared, .idle, output⟩) :
    ∃ taken, LeadsTo content capacity frameKeys paths options.accepts share
      ⟨feed, shared, .idle, output⟩ taken (step options ⟨feed, shared, .idle, output⟩) := by
  obtain ⟨reads, within, accounts, -⟩ := inv
  cases accounts with
  | @intro read left kept current holds counts events samples states =>
    cases holds with
    | idle =>
      rcases found : feed.next with ⟨_ | chunk, after⟩
      · obtain ⟨last, nothing, ended⟩ := reads.ended found
        rw [step_idle_none options feed output found]
        refine ⟨read ++ [], ⟨last, within, .intro .finished counts events samples states,
          fun _ => ended⟩, .refl _, ?_, fun _ => ended⟩
        simp only [records_of_ended options.accepts last ended,
          records_of_ended options.accepts reads nothing]
      · rw [step_idle_some options feed output found]
        refine ⟨read ++ Record.ofText options.accepts chunk.bytes,
          ⟨(reads.next found).1, within, .intro (.reading _) counts events samples states, ?_⟩,
          .refl _, ?_, ?_⟩
        · simp [Stage.isWorking]
        · simp [Feed.records_some found]
        · intro nothing
          obtain ⟨other, none⟩ := reads.next_of_nil nothing
          simp [found] at none

theorem Inv.takeRecord (uncapped : options.maxSamples = none) {feed : Feed} {shared : Shared}
    {output : Output} {record : Record} {records : List Record}
    (inv : Inv content capacity frameKeys paths share
      ⟨feed, shared, .reading (record :: records), output⟩) :
    LeadsTo content capacity frameKeys paths options.accepts share
      ⟨feed, shared, .reading (record :: records), output⟩ share
      (step options ⟨feed, shared, .reading (record :: records), output⟩) := by
  obtain ⟨reads, within, accounts, -⟩ := inv
  cases accounts with
  | @intro read left kept current holds counts events samples states =>
    cases holds with
    | reading =>
      have counted : output.counts.merge record.counts = Record.countAll (read ++ [record]) := by
        rw [Record.countAll_append, Record.countAll_singleton, counts]
      rw [List.append_cons]
      cases found : record.event? with
      | none =>
        have taken : (read ++ [record]).filterMap Record.event? = kept.reverse ++ [] := by
          rw [List.filterMap_append, events]
          simp [found]
        simp only [step, Session.takeRecord, found]
        refine Inv.leadsTo_of_same options.accepts rfl (.refl _) ?_
        exact ⟨reads, within, .intro (.reading records) counted taken samples states,
          by simp [Stage.isWorking]⟩
      | some event =>
        have taken : (read ++ [record]).filterMap Record.event? = kept.reverse ++ [event] := by
          rw [List.filterMap_append, events]
          simp [found]
        have room : options.isFull shared.accepted = false := by
          rw [Options.isFull, uncapped]
          rfl
        have own : framesOf event output.states = (event.frames, none) := by
          have states : output.states = none := states
          rw [states]
          rfl
        have whole : event.stackKeys = (event.frames.reverse.map Frame.displayKey).reverse ++ [] := by
          simp [Event.stackKeys]
        simp only [step, Session.takeRecord, found, room, own, Bool.false_eq_true, if_false]
        refine Inv.leadsTo_of_same options.accepts rfl (.refl _) ?_
        exact ⟨reads, within, .intro (.climbing records .root whole) counted taken samples rfl,
          by simp [Stage.isWorking]⟩

theorem Inv.keepSample {feed : Feed} {shared : Shared} {output : Output} {time : Seconds}
    {stack : StackId} {records : List Record}
    (inv : Inv content capacity frameKeys paths share
      ⟨feed, shared, .climbing time [] stack records, output⟩) :
    LeadsTo content capacity frameKeys paths options.accepts share
      ⟨feed, shared, .climbing time [] stack records, output⟩ share
      (step options ⟨feed, shared, .climbing time [] stack records, output⟩) := by
  obtain ⟨reads, within, accounts, -⟩ := inv
  cases accounts with
  | @intro read left kept current holds counts events samples states =>
    cases holds with
    | @climbing event _ _ keys _ outer whole =>
      have kept : read.filterMap Record.event? = (event :: kept).reverse ++ [] := by
        rw [events, List.reverse_cons, List.append_nil]
      have spelled : Spells shared.tree stack event.stackKeys := by
        rw [whole]
        exact outer
      refine Inv.leadsTo_of_same options.accepts rfl (.refl _) ?_
      exact ⟨reads, within,
        .intro (.reading records) counts kept (.cons ⟨rfl, spelled⟩ samples) states,
        by simp [step, Stage.isWorking]⟩

theorem Inv.internFrame (fewFrames : frameKeys.card ≤ 0x100000000)
    (allowed : ∀ event ∈ share.filterMap Record.event?, event.IsWithin frameKeys paths)
    {feed : Feed} {shared : Shared} {output : Output} {time : Seconds} {frame : Frame}
    {frames : List Frame} {caller : StackId} {records : List Record}
    (inv : Inv content capacity frameKeys paths share
      ⟨feed, shared, .climbing time (frame :: frames) caller records, output⟩) :
    LeadsTo content capacity frameKeys paths options.accepts share
      ⟨feed, shared, .climbing time (frame :: frames) caller records, output⟩ share
      (step options ⟨feed, shared, .climbing time (frame :: frames) caller records, output⟩) := by
  obtain ⟨reads, within, accounts, -⟩ := inv
  cases accounts with
  | @intro read left kept current holds counts events samples states =>
    cases holds with
    | @climbing event _ _ keys _ outer whole =>
      rw [List.map_cons, List.reverse_cons, List.append_assoc, List.singleton_append] at whole
      have among : event ∈ (read ++ records).filterMap Record.event? := by
        rw [List.filterMap_append, events]
        simp
      have grown := within.internFrame ((allowed event among).frames frame.displayKey (by simp [whole]))
      have grows := CallTree.grows_internFrame frame shared.tree
      have framed := CallTree.frameInterned_internFrame (Nat.le_trans grown.size_frames_le fewFrames)
      obtain ⟨named, there, same⟩ := framed.frames.finds rfl
      rw [← same] at whole
      refine Inv.leadsTo_of_same options.accepts rfl grows ?_
      exact ⟨reads, grown, .intro (.joining records there (outer.grow grows) whole) counts events
        (samples.imp fun _ _ shown => Shows.grow shown grows) states,
        by simp [step, Stage.isWorking]⟩

theorem Inv.internNode (fewFrames : frameKeys.card ≤ 0x100000000) (few : paths.card ≤ 0x80000000)
    (allowed : ∀ event ∈ share.filterMap Record.event?, event.IsWithin frameKeys paths)
    {feed : Feed} {shared : Shared} {output : Output} {time : Seconds} {frame : FrameId}
    {frames : List Frame} {caller : StackId} {records : List Record}
    (inv : Inv content capacity frameKeys paths share
      ⟨feed, shared, .joining time frame frames caller records, output⟩) :
    LeadsTo content capacity frameKeys paths options.accepts share
      ⟨feed, shared, .joining time frame frames caller records, output⟩ share
      (step options ⟨feed, shared, .joining time frame frames caller records, output⟩) := by
  obtain ⟨reads, within, accounts, -⟩ := inv
  cases accounts with
  | @intro read left kept current holds counts events samples states =>
    cases holds with
    | @joining event _ named _ _ keys _ there outer whole =>
      have among : event ∈ (read ++ records).filterMap Record.event? := by
        rw [List.filterMap_append, events]
        simp
      have path : named.displayKey :: keys ∈ paths :=
        (allowed event among).paths _ ⟨_, whole.symm⟩ (List.cons_ne_nil _ _)
      have grown := within.internNode there outer path
      have grows := CallTree.grows_internNode frame caller shared.tree
      have spells := within.spells_internNode (Nat.le_trans within.size_frames_le fewFrames)
        (Nat.le_trans grown.size_nodes_le few) there outer
      refine Inv.leadsTo_of_same options.accepts rfl grows ?_
      exact ⟨reads, grown, .intro (.climbing records spells whole) counts events
        (samples.imp fun _ _ shown => Shows.grow shown grows) states,
        by simp [step, Stage.isWorking]⟩

theorem Inv.step (uncapped : options.maxSamples = none) (fewFrames : frameKeys.card ≤ 0x100000000)
    (few : paths.card ≤ 0x80000000)
    (allowed : ∀ event ∈ share.filterMap Record.event?, event.IsWithin frameKeys paths)
    (inv : scene.Inv content capacity frameKeys paths share) :
    ∃ taken, LeadsTo content capacity frameKeys paths options.accepts share scene taken
      (scene.step options) := by
  obtain ⟨feed, shared, stage, output⟩ := scene
  cases stage with
  | idle => exact inv.takeChunk
  | reading records =>
    cases records with
    | nil =>
      obtain ⟨reads, within, accounts, -⟩ := inv
      cases accounts with
      | @intro read left kept current holds counts events samples states =>
        cases holds with
        | reading =>
          refine ⟨read ++ [], Inv.leadsTo_of_same options.accepts rfl (.refl _) ?_⟩
          exact ⟨reads, within, .intro .idle counts events samples states,
            by simp [Scene.step, Stage.isWorking]⟩
    | cons record records => exact ⟨share, inv.takeRecord uncapped⟩
  | climbing time frames caller records =>
    cases frames with
    | nil => exact ⟨share, inv.keepSample⟩
    | cons frame frames => exact ⟨share, inv.internFrame fewFrames allowed⟩
  | joining time frame frames caller records =>
    exact ⟨share, inv.internNode fewFrames few allowed⟩
  | finished => exact ⟨share, Inv.leadsTo_of_same options.accepts rfl (.refl _) inv⟩

end Scene

end

end Session

end ProfileTrace
