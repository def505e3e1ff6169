import Mathlib.Algebra.Group.Action.Defs
import Mathlib.Algebra.Order.BigOperators.Group.List
import Mathlib.Algebra.Order.Group.Nat
import ProfileTrace.Proofs.Chunk.SinglePass
import ProfileTrace.Proofs.Chunk.Written
import ProfileTrace.Proofs.Session.Accounting
import ProfileTrace.Proofs.Session.Arrangement

/-! The result of a session whatever the order is in which its workers take their steps. Numbers
of frames and nodes are given out in that order, but what a sample's number stands for is not. -/

namespace ProfileTrace

def frameKeysOf (events : List Event) : Finset String :=
  (events.flatMap Event.stackKeys).toFinset

/-- The stacks that the nodes of a call tree of events stand for: what is left of an event's own
stack below some of its deepest frames. -/
def stacksOf (events : List Event) : Finset (List String) :=
  (events.flatMap fun event => event.stackKeys.tails).toFinset.erase []

theorem frameKeysOf_eq (events : List Event) :
    frameKeysOf events = CallTree.keysOf (events.map Event.stackKeys) := rfl

theorem stacksOf_eq (events : List Event) :
    stacksOf events = CallTree.pathsOf (events.map Event.stackKeys) := by
  rw [stacksOf, CallTree.pathsOf, List.flatMap_map]

theorem isWithin_of_mem {events : List Event} {event : Event} (among : event ∈ events) :
    event.IsWithin (frameKeysOf events) (stacksOf events) := by
  have stack := List.mem_map_of_mem (f := Event.stackKeys) among
  rw [frameKeysOf_eq, stacksOf_eq]
  exact ⟨fun _ inside => CallTree.mem_keysOf.mpr ⟨_, stack, inside⟩,
    fun _ part some => CallTree.mem_pathsOf.mpr ⟨some, _, stack, part⟩⟩

/-- The source shows just these records: one sample for each of their events, at its time from
the least one on and with the display keys of its frames. -/
structure StackSource.Shows (records : List Record) (source : StackSource) : Prop where
  samples : (source.samples.map fun sample =>
      (sample.time, (source.callStack sample.stack).map Frame.displayKey)).Perm
    ((records.filterMap Record.event?).map fun event =>
      (event.time - Seconds.earliest ((records.filterMap Record.event?).map Event.time),
        event.stackKeys))
  count : source.samples.length = (records.filterMap Record.event?).length
  counts : source.counts = Record.countAll records
  distinct : (source.frames.toList.map Frame.displayKey).Nodup
  frames : (source.frames.toList.map Frame.displayKey).toFinset =
    frameKeysOf (records.filterMap Record.event?)
  nodes : source.nodes.size = (stacksOf (records.filterMap Record.event?)).card

namespace Session
open CallTree (Spells Within)

structure Crew.Inv (content : List UInt8) (capacity : Nat) (accepts : String → Bool)
    (all : List Record) (crew : Crew) : Prop where
  reads : Feed.Reads content capacity crew.feed
  within : Within (frameKeysOf (all.filterMap Record.event?))
    (stacksOf (all.filterMap Record.event?)) crew.shared.tree
  shares : ∃ shares, List.Forall₂ (Agent.Accounts crew.shared.tree) crew.agents shares ∧
    (shares.flatten ++ crew.feed.records accepts).Perm all
  ended : ∀ agent ∈ crew.agents, agent.stage.isWorking = false → crew.feed.ahead content = []

/-- The records of one worker among those of all, and what becomes of these when it has others. -/
theorem exists_share {α β : Type} {before : α → List β → Prop} {agents : List α}
    {shares : List (List β)} (accounts : List.Forall₂ before agents shares) {i : Nat} {agent : α}
    (found : agents[i]? = some agent) :
    ∃ share others, before agent share ∧ shares.flatten.Perm (others ++ share) ∧
      ∀ {after : α → List β → Prop}, (∀ agent share, before agent share → after agent share) →
        ∀ {next taken}, after next taken →
          ∃ moved, List.Forall₂ after (agents.set i next) moved ∧
            moved.flatten.Perm (others ++ taken) := by
  induction accounts generalizing i with
  | nil => simp at found
  | @cons first share agents shares own rest ih =>
    cases i with
    | zero =>
      obtain rfl : first = agent := by simpa using found
      refine ⟨share, shares.flatten, own, List.perm_append_comm, ?_⟩
      intro after grow next taken accounts
      exact ⟨taken :: shares, .cons accounts (rest.imp grow), List.perm_append_comm⟩
    | succ i =>
      obtain ⟨other, others, its, parts, replace⟩ := ih (by simpa using found)
      refine ⟨other, share ++ others, its, ?_, ?_⟩
      · rw [List.flatten_cons, List.append_assoc]
        exact parts.append_left share
      · intro after grow next taken accounts
        obtain ⟨moved, all, whole⟩ := replace grow accounts
        refine ⟨share :: moved, .cons (grow first share own) all, ?_⟩
        rw [List.flatten_cons, List.append_assoc]
        exact whole.append_left share

section
variable {content : List UInt8} {capacity : Nat} {all : List Record} {crew : Crew}
  {options : Options}

theorem Crew.Inv.step (uncapped : options.maxSamples = none)
    (fewFrames : (frameKeysOf (all.filterMap Record.event?)).card ≤ 0x100000000)
    (few : (stacksOf (all.filterMap Record.event?)).card ≤ 0x80000000)
    (inv : crew.Inv content capacity options.accepts all) (i : Nat) :
    (crew.step options i).Inv content capacity options.accepts all := by
  obtain ⟨reads, within, ⟨shares, accounts, whole⟩, ended⟩ := inv
  cases found : crew.agents[i]? with
  | none =>
    simp only [Crew.step, found]
    exact ⟨reads, within, ⟨shares, accounts, whole⟩, ended⟩
  | some agent =>
    obtain ⟨share, others, own, parts, replace⟩ := exists_share accounts found
    -- a record leaves the feed only for this worker's share, and the other shares stay
    have among : (others ++ (share ++ crew.feed.records options.accepts)).Perm all := by
      rw [← List.append_assoc]
      exact (parts.symm.append_right _).trans whole
    have allowed : ∀ event ∈ share.filterMap Record.event?,
        event.IsWithin (frameKeysOf (all.filterMap Record.event?))
          (stacksOf (all.filterMap Record.event?)) := by
      intro event inside
      obtain ⟨record, taken, found⟩ := List.mem_filterMap.mp inside
      have here : record ∈ others ++ (share ++ crew.feed.records options.accepts) := by
        simp [taken]
      exact isWithin_of_mem (List.mem_filterMap.mpr ⟨record, among.subset here, found⟩)
    have scene : Scene.Inv content capacity (frameKeysOf (all.filterMap Record.event?))
        (stacksOf (all.filterMap Record.event?)) share ⟨crew.feed, crew.shared, agent⟩ :=
      ⟨reads, within, own, ended agent (List.mem_of_getElem? found)⟩
    obtain ⟨taken, next⟩ := scene.step uncapped fewFrames few allowed
    obtain ⟨moved, accounts, flat⟩ := replace
      (fun _ _ accounts => Agent.Accounts.grow accounts next.grows) next.inv.accounts
    simp only [Crew.step, found]
    refine ⟨next.inv.reads, next.inv.within, ⟨moved, accounts, ?_⟩, ?_⟩
    · apply (flat.append_right _).trans
      rw [List.append_assoc, next.records]
      exact among
    · intro other inside stopped
      rcases List.mem_or_eq_of_mem_set inside with old | rfl
      · exact next.ended (ended other old stopped)
      · exact next.inv.ended stopped

theorem Crew.Inv.run (uncapped : options.maxSamples = none)
    (fewFrames : (frameKeysOf (all.filterMap Record.event?)).card ≤ 0x100000000)
    (few : (stacksOf (all.filterMap Record.event?)).card ≤ 0x80000000)
    (inv : crew.Inv content capacity options.accepts all) (schedule : List Nat) :
    (crew.run options schedule).Inv content capacity options.accepts all := by
  induction schedule generalizing crew with
  | nil => exact inv
  | cons i schedule ih => exact ih (inv.step uncapped fewFrames few i)

theorem Crew.inv_start {reader : Reader} (calm : reader.Faultless) (untimed : options.threadTime = false) :
    (Crew.start options reader).Inv reader.content (max options.windowLength leastCapacity)
      options.accepts ((Feed.ofReader reader options.windowLength).records options.accepts) where
  reads := Feed.reads_ofReader calm options.windowLength
  within := .empty
  shares := by
    refine ⟨List.replicate options.effectiveWorkers [], ?_, ?_⟩
    · simp only [Crew.start, untimed, Bool.false_eq_true, if_false]
      generalize options.effectiveWorkers = count
      induction count with
      | zero => exact .nil
      | succ count ih =>
        have none := @Agent.Accounts.intro {} { output := {} } [] [] [] [] .idle rfl rfl .nil rfl
        exact .cons none ih
    · rw [List.flatten_replicate_nil]
      exact .refl _
  ended agent among stopped := by
    rw [List.eq_of_mem_replicate among] at stopped
    cases stopped

theorem Agent.Accounts.finished {tree : CallTree} {agent : Agent} {share : List Record}
    (accounts : agent.Accounts tree share) (stopped : agent.stage.isWorking = false) :
    agent.output.counts = Record.countAll share ∧
      List.Forall₂ (Session.Shows tree) agent.output.samples.reverse
        (share.filterMap Record.event?) := by
  cases accounts with
  | @intro read left kept current holds counts events samples states =>
    obtain ⟨stage, output⟩ := agent
    cases stage with
    | finished =>
      cases holds
      rw [List.append_nil] at events ⊢
      rw [events]
      exact ⟨counts, List.rel_reverse samples⟩
    | _ => cases stopped

theorem accounts_finished {tree : CallTree} {agents : List Agent} {shares : List (List Record)}
    (accounts : List.Forall₂ (Agent.Accounts tree) agents shares)
    (stopped : ∀ agent ∈ agents, agent.stage.isWorking = false) :
    agents.map (fun agent => agent.output.counts) = shares.map Record.countAll ∧
      List.Forall₂ (Session.Shows tree)
        (agents.flatMap fun agent => agent.output.samples.reverse)
        (shares.flatten.filterMap Record.event?) := by
  induction accounts with
  | nil => exact ⟨rfl, .nil⟩
  | @cons agent share agents shares own others ih =>
    obtain ⟨counts, samples⟩ := own.finished (stopped agent List.mem_cons_self)
    obtain ⟨more, rest⟩ := ih fun agent among => stopped agent (List.mem_cons_of_mem _ among)
    rw [List.map_cons, List.map_cons, counts, more, List.flatMap_cons, List.flatten_cons,
      List.filterMap_append]
    exact ⟨rfl, List.rel_append samples rest⟩

theorem map_eq_of_shows {tree : CallTree} {samples : List Sample} {events : List Event}
    (shown : List.Forall₂ (Session.Shows tree) samples events) {γ : Type} {f : Sample → γ}
    {g : Event → γ} (same : ∀ sample event, Session.Shows tree sample event → f sample = g event) :
    samples.map f = events.map g := by
  induction shown with
  | nil => rfl
  | cons first others ih => rw [List.map_cons, List.map_cons, same _ _ first, ih]

theorem exists_sample {tree : CallTree} {samples : List Sample} {events : List Event}
    (shown : List.Forall₂ (Session.Shows tree) samples events) {event : Event}
    (among : event ∈ events) : ∃ sample, Session.Shows tree sample event := by
  induction shown with
  | nil => simp at among
  | cons first others ih =>
    rcases List.mem_cons.mp among with rfl | later
    · exact ⟨_, first⟩
    · exact ih later

theorem arrange_of_shows {tree : CallTree} {samples : List Sample} {events all : List Event}
    (shown : List.Forall₂ (Session.Shows tree) samples events) (same : events.Perm all)
    (source : StackSource) (outward : tree.Outward) (frames : source.frames = tree.frames.entries)
    (nodes : source.nodes = tree.nodes.entries)
    (arranged : source.samples = (StackSource.arrange samples).2) :
    (source.samples.map fun sample =>
        (sample.time, (source.callStack sample.stack).map Frame.displayKey)).Perm
      (all.map fun event =>
        (event.time - Seconds.earliest (all.map Event.time), event.stackKeys)) := by
  have times : samples.map Sample.time = events.map Event.time :=
    map_eq_of_shows shown fun _ _ shows => shows.1
  have origin : Seconds.earliest (samples.map Sample.time) = Seconds.earliest (all.map Event.time) := by
    rw [times]
    exact Seconds.earliest_perm (same.map _)
  have each := StackSource.snd_arrange_perm samples
  rw [← arranged, origin] at each
  apply (each.map _).trans
  rw [List.map_map]
  have pairs : samples.map ((fun sample : Sample =>
        (sample.time, (source.callStack sample.stack).map Frame.displayKey)) ∘
      fun sample => { sample with time := sample.time - Seconds.earliest (all.map Event.time) }) =
      events.map fun event =>
        (event.time - Seconds.earliest (all.map Event.time), event.stackKeys) := by
    apply map_eq_of_shows shown
    intro sample event shows
    simp only [Function.comp_apply, shows.1, shows.2.callStack outward frames nodes]
  rw [pairs]
  exact same.map _

/-- A tree in which all events have their samples holds the frames of just these events, and a
node for each of their stacks. -/
theorem tables_of_shows {tree : CallTree} {events : List Event}
    (within : Within (frameKeysOf events) (stacksOf events) tree)
    (shown : ∀ event ∈ events, ∃ id, Spells tree id event.stackKeys) :
    (tree.frames.entries.toList.map Frame.displayKey).toFinset = frameKeysOf events ∧
      tree.nodes.entries.size = (stacksOf events).card := by
  rw [frameKeysOf_eq, stacksOf_eq] at within ⊢
  apply within.complete
  intro stack among
  obtain ⟨event, inside, rfl⟩ := List.mem_map.mp among
  exact shown event inside

theorem Crew.Inv.shows (inv : crew.Inv content capacity options.accepts all) (done : crew.IsFinished)
    (some : crew.agents ≠ []) : ∃ source, crew.result = .ok source ∧ source.Shows all := by
  obtain ⟨reads, within, ⟨shares, accounts, whole⟩, ended⟩ := inv
  obtain ⟨first, others, shape⟩ := List.exists_cons_of_ne_nil some
  have among : first ∈ crew.agents := by simp [shape]
  rw [records_of_ended options.accepts reads (ended first among (done first among)),
    List.append_nil] at whole
  obtain ⟨counts, samples⟩ := accounts_finished accounts done
  have events := whole.filterMap Record.event?
  have spelled : ∀ event ∈ all.filterMap Record.event?,
      ∃ id, Spells crew.shared.tree id event.stackKeys := by
    intro event inside
    obtain ⟨sample, shown⟩ := exists_sample samples (events.symm.subset inside)
    exact ⟨sample.stack, shown.2⟩
  obtain ⟨frames, nodes⟩ := tables_of_shows within spelled
  have calm : crew.feed.cursor.fault = none := reads.stands.noFault
  have gathered : (gather crew.pool).samples = (StackSource.arrange
      (crew.agents.flatMap fun agent => agent.output.samples.reverse)).2 := by
    simp [gather, Crew.pool, Pool.states, List.flatMap_map]
  have arranged := arrange_of_shows samples events (gather crew.pool) within.outward rfl rfl gathered
  refine ⟨gather crew.pool, by rw [Crew.result, calm], arranged, ?_, ?_, ?_, frames, nodes⟩
  · have size := arranged.length_eq
    rwa [List.length_map, List.length_map] at size
  · have total : (gather crew.pool).counts =
        (crew.agents.map fun agent => agent.output.counts).foldl RecordCounts.merge {} := by
      simp [gather, Crew.pool, Pool.states, List.foldl_map]
    rw [total, counts, Record.countAll_flatten]
    exact Record.countAll_perm whole
  · exact crew.shared.tree.frames.nodup_keys

end

/-- No interleaving of the workers' steps shows in the result of a session. When a source that
never fails is read without a limit of samples and without blocked time, every order of steps can
be gone on with to the end, and however many workers there are and in whatever order they come
to the end, the result shows just the records of the chunks. That of the session is one of them. -/
theorem result_of_any_schedule {reader : Reader} (calm : reader.Faultless) {options : Options}
    (uncapped : options.maxSamples = none) (untimed : options.threadTime = false)
    {records : List Record}
    (chunks : (Feed.ofReader reader options.windowLength).records options.accepts = records)
    (fewFrames : (frameKeysOf (records.filterMap Record.event?)).card < 0x100000000)
    (few : (stacksOf (records.filterMap Record.event?)).card < 0x80000000) :
    (∀ schedule, ((Crew.start options reader).run options schedule).IsFinished →
        ∃ source, ((Crew.start options reader).run options schedule).result = .ok source ∧
          source.Shows records) ∧
      (∀ schedule, ∃ more,
        ((Crew.start options reader).run options (schedule ++ more)).IsFinished) ∧
      ∃ schedule, ((Crew.start options reader).run options schedule).IsFinished ∧
        ((Crew.start options reader).run options schedule).result = Session.read options reader := by
  subst chunks
  refine ⟨?_, Crew.exists_run_on options _, Crew.exists_run_read options reader⟩
  intro schedule done
  have inv := (Crew.inv_start calm untimed).run uncapped (Nat.le_of_lt fewFrames) (Nat.le_of_lt few)
    schedule
  apply inv.shows done
  apply List.ne_nil_of_length_pos
  rw [Crew.length_agents_run]
  exact List.length_pos_iff.mpr (Crew.agents_start_ne_nil options reader)

def twoWorkers : Options := { workers := 2, windowLength := 0 }

theorem layoutsOf_relayText : Record.layoutsOf relayText = relay := by
  have written : Written 512 relay relayText :=
    written_flatMap wellFormed_relay (by decide +kernel) rfl (by decide +kernel)
  exact written.layoutsOf_eq

def relayEvents : List Event := relay.map RecordLayout.event

theorem records_relay {options : Options} (window : options.windowLength = 0)
    (all : options.filter = none) :
    (Feed.ofReader (Reader.ofBytes ⟨relayText.toArray⟩) options.windowLength).records
      options.accepts = relayEvents.map .event := by
  have calm := Reader.faultless_ofBytes ⟨relayText.toArray⟩
  have run := (Feed.reads_ofReader calm 0).handouts.1
  rw [Feed.ahead_ofReader calm] at run
  have text : (Reader.ofBytes ⟨relayText.toArray⟩).ahead = relayText := rfl
  have accepts : options.accepts = fun _ => true := by
    funext name
    rw [Options.accepts, all]
    rfl
  rw [window, accepts, Feed.records, run.flatMap_ofText chunks_relay.2, text, Record.ofText_eq,
    layoutsOf_relayText, relayEvents, List.map_map]
  rfl

theorem filterMap_event (events : List Event) :
    (events.map Record.event).filterMap Record.event? = events := by
  rw [List.filterMap_map]
  exact List.filterMap_some

theorem card_le_of_length {events : List Event} {bound : Nat}
    (short : ∀ event ∈ events, event.frames.length ≤ bound) :
    (frameKeysOf events).card ≤ events.length * bound ∧
      (stacksOf events).card ≤ events.length * (bound + 1) := by
  have keys : ∀ event ∈ events, event.stackKeys.length ≤ bound := by
    intro event among
    rw [Event.stackKeys, List.length_map]
    exact short event among
  have total {size : Event → Nat} {most : Nat} (each : ∀ event ∈ events, size event ≤ most) :
      (events.map size).sum ≤ events.length * most := by
    have sum := List.sum_le_card_nsmul (events.map size) most (List.forall_mem_map.mpr each)
    rwa [List.length_map, smul_eq_mul] at sum
  constructor
  · calc
      (frameKeysOf events).card ≤ (events.flatMap Event.stackKeys).length :=
        List.toFinset_card_le _
      _ = (events.map fun event => event.stackKeys.length).sum := List.length_flatMap
      _ ≤ events.length * bound := total keys
  · calc
      (stacksOf events).card ≤ (events.flatMap fun event => event.stackKeys.tails).toFinset.card :=
        Finset.card_le_card (Finset.erase_subset _ _)
      _ ≤ (events.flatMap fun event => event.stackKeys.tails).length := List.toFinset_card_le _
      _ = (events.map fun event => event.stackKeys.tails.length).sum := List.length_flatMap
      _ ≤ events.length * (bound + 1) := total (by simpa using keys)

theorem length_frames_event (layout : RecordLayout) :
    layout.event.frames.length ≤ layout.lines.length + 2 := by
  have some := List.length_filterMap_le Record.frameOfLine (layout.lines.map FrameLine.ofLine)
  rw [List.length_map] at some
  simp only [RecordLayout.event, Headline.event, List.length_append, List.length_cons,
    List.length_nil]
  omega

theorem length_frames_relay : ∀ event ∈ relayEvents, event.frames.length ≤ 10 := by
  have lines : ∀ record ∈ relay, record.lines.length ≤ 8 := by decide
  intro event among
  obtain ⟨record, inside, rfl⟩ := List.mem_map.mp among
  have short := length_frames_event record
  have few := lines record inside
  omega

theorem result_of_two_workers :
    (Reader.ofBytes ⟨relayText.toArray⟩).Faultless ∧
      (Feed.ofReader (Reader.ofBytes ⟨relayText.toArray⟩) twoWorkers.windowLength).records
        twoWorkers.accepts = relayEvents.map .event ∧
      (frameKeysOf relayEvents).card < 0x100000000 ∧ (stacksOf relayEvents).card < 0x80000000 ∧
      ∃ source, Session.read twoWorkers (Reader.ofBytes ⟨relayText.toArray⟩) = .ok source ∧
        source.samples.length = 6 ∧ source.Shows (relayEvents.map .event) := by
  have calm := Reader.faultless_ofBytes ⟨relayText.toArray⟩
  have records := @records_relay twoWorkers rfl rfl
  obtain ⟨frames, paths⟩ := card_le_of_length length_frames_relay
  have six : relayEvents.length = 6 := rfl
  have fewFrames : (frameKeysOf relayEvents).card < 0x100000000 := by omega
  have few : (stacksOf relayEvents).card < 0x80000000 := by omega
  obtain ⟨shows, -, schedule, done, same⟩ := result_of_any_schedule calm rfl rfl records
    (by rwa [filterMap_event]) (by rwa [filterMap_event])
  obtain ⟨source, gathered, shown⟩ := shows schedule done
  have count := shown.count
  rw [filterMap_event, six] at count
  exact ⟨calm, records, fewFrames, few, source, same.symm.trans gathered, count, shown⟩

end Session

end ProfileTrace
