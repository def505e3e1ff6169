import Mathlib.Data.List.Induction
import ProfileTrace.Proofs.Session.SingleWorker

/-! The samples of events that are kept one after the other, whether blocked time is asked for or
not. Each event has one sample, whose number goes on to spell the frames that it was given in an
earlier tree. -/

namespace ProfileTrace

def Options.statesAtFirst (options : Options) : Option ThreadStates :=
  if options.threadTime then some {} else none

namespace Session
open CallTree (Grows Spells Within)

/-- The tree, the samples and the states when all samples of events are kept. -/
def keptRun (states : Option ThreadStates) (events : List Event) : Shared × Output :=
  keepAll events {} { states }

def framesAfter (states : Option ThreadStates) (observed : List Event) (event : Event) :
    List Frame :=
  (framesOf event (states.map fun states =>
    observed.foldl (fun states event => states.observe event) states)).1

variable {states : Option ThreadStates}

theorem states_keptRun (states : Option ThreadStates) (events : List Event) :
    (keptRun states events).2.states = states.map fun states =>
      events.foldl (fun states event => states.observe event) states :=
  states_keepAll events {} { states }

theorem keptRun_concat (states : Option ThreadStates) (events : List Event) (event : Event) :
    keptRun states (events ++ [event]) =
      keep event (keptRun states events).1 (keptRun states events).2 :=
  List.foldl_append

theorem keptRun_concat_eq (states : Option ThreadStates) (events : List Event) (event : Event) :
    (keptRun states (events ++ [event])).1.tree =
        ((keptRun states events).1.tree.internStack (framesAfter states events event) .root).2 ∧
      (keptRun states (events ++ [event])).2.samples =
        ⟨((keptRun states events).1.tree.internStack (framesAfter states events event) .root).1,
          event.time⟩ :: (keptRun states events).2.samples := by
  have frames : framesAfter states events event =
      (framesOf event (keptRun states events).2.states).1 := by
    rw [states_keptRun, framesAfter]
  rw [keptRun_concat, frames]
  exact ⟨rfl, rfl⟩

theorem grows_keptRun (states : Option ThreadStates) (events more : List Event) :
    Grows (keptRun states events).1.tree (keptRun states (events ++ more)).1.tree := by
  induction more using List.reverseRecOn with
  | nil =>
    rw [List.append_nil]
    exact .refl _
  | append_singleton more event ih =>
    rw [← List.append_assoc, (keptRun_concat_eq states (events ++ more) event).1]
    exact ih.trans (CallTree.grows_internStack _ _ _)

theorem length_samples_keptRun (states : Option ThreadStates) (events : List Event) :
    (keptRun states events).2.samples.length = events.length := by
  induction events using List.reverseRecOn with
  | nil => rfl
  | append_singleton events event ih =>
    rw [(keptRun_concat_eq states events event).2, List.length_cons, ih, List.length_append,
      List.length_singleton]

theorem times_keptRun (states : Option ThreadStates) (events : List Event) :
    (keptRun states events).2.samples.reverse.map Sample.time = events.map Event.time := by
  induction events using List.reverseRecOn with
  | nil => rfl
  | append_singleton events event ih =>
    rw [(keptRun_concat_eq states events event).2, List.reverse_cons, List.map_append, ih,
      List.map_append]
    rfl

theorem length_framesAfter_le (states : Option ThreadStates) (observed : List Event)
    (event : Event) : (framesAfter states observed event).length ≤ event.frames.length + 1 := by
  cases states with
  | none => exact Nat.le_succ _
  | some states =>
    have root := (List.drop_sublist (event.frames.length - 2) event.frames).length_le
    exact Nat.succ_le_succ root

theorem size_keptRun_le (states : Option ThreadStates) {events : List Event} {bound : Nat}
    (short : ∀ event ∈ events, event.frames.length ≤ bound) :
    (keptRun states events).1.tree.frames.entries.size ≤ events.length * (bound + 1) ∧
      (keptRun states events).1.tree.nodes.entries.size ≤ events.length * (bound + 1) := by
  induction events using List.reverseRecOn with
  | nil => exact ⟨Nat.zero_le _, Nat.zero_le _⟩
  | append_singleton events event ih =>
    obtain ⟨frames, nodes⟩ := ih fun other among => short other (List.mem_append_left _ among)
    have stack := length_framesAfter_le states events event
    have few := short event (List.mem_append_right _ List.mem_cons_self)
    have moreFrames := CallTree.size_frames_internStack_le (framesAfter states events event) .root
      (keptRun states events).1.tree
    have moreNodes := CallTree.size_nodes_internStack_le (framesAfter states events event) .root
      (keptRun states events).1.tree
    rw [(keptRun_concat_eq states events event).1, List.length_append, List.length_singleton,
      Nat.succ_mul]
    omega

theorem getElem?_samples_keptRun (states : Option ThreadStates) {events : List Event} {i : Nat}
    {event : Event} (found : events[i]? = some event) :
    (keptRun states events).2.samples.reverse[i]? =
      some ⟨((keptRun states (events.take i)).1.tree.internStack
        (framesAfter states (events.take i) event) .root).1, event.time⟩ := by
  induction events using List.reverseRecOn with
  | nil => simp at found
  | append_singleton events last ih =>
    have length : (keptRun states events).2.samples.reverse.length = events.length := by
      rw [List.length_reverse, length_samples_keptRun]
    rw [(keptRun_concat_eq states events last).2, List.reverse_cons]
    have inside := (List.getElem?_eq_some_iff.mp found).1
    rw [List.length_append, List.length_singleton] at inside
    by_cases before : i < events.length
    · rw [List.getElem?_append_left before] at found
      rw [List.getElem?_append_left (by rwa [length]), List.take_append_of_le_length (by omega)]
      exact ih found
    · obtain rfl : i = events.length := by omega
      rw [List.getElem?_concat_length, Option.some.injEq] at found
      subst found
      rw [← length, List.getElem?_concat_length, length, List.take_left]

theorem within_keptRun (states : Option ThreadStates) (all : List (List String))
    {events : List Event}
    (allowed : ∀ observed event, observed ++ [event] <+: events →
      (framesAfter states observed event).map Frame.displayKey ∈ all)
    (fewFrames : (keptRun states events).1.tree.frames.entries.size ≤ 0x100000000)
    (few : (keptRun states events).1.tree.nodes.entries.size ≤ 0x80000000) :
    Within (CallTree.keysOf all) (CallTree.pathsOf all) (keptRun states events).1.tree := by
  induction events using List.reverseRecOn with
  | nil => exact .empty
  | append_singleton events event ih =>
    have grows := grows_keptRun states events [event]
    have before := ih
      (fun observed event part => allowed observed event (part.trans (List.prefix_append _ _)))
      (Nat.le_trans grows.size_frames_le fewFrames) (Nat.le_trans grows.size_nodes_le few)
    have among := allowed events event (List.prefix_refl _)
    rw [(keptRun_concat_eq states events event).1] at fewFrames few ⊢
    exact (before.internStack .root ⟨_, among, by simp⟩ fewFrames few).1

def stacksAfter (states : Option ThreadStates) (events : List Event) : List (List String) :=
  events.mapIdx fun i event => (framesAfter states (events.take i) event).map Frame.displayKey

theorem mem_stacksAfter (states : Option ThreadStates) {events observed : List Event}
    {event : Event}
    (part : observed ++ [event] <+: events) :
    (framesAfter states observed event).map Frame.displayKey ∈ stacksAfter states events := by
  obtain ⟨more, rfl⟩ := part
  refine List.mem_mapIdx.mpr ⟨observed.length, by simp, ?_⟩
  simp

/-- The number of a sample spells the frames that it stands for, as long as there are numbers. -/
theorem spells_keptRun (states : Option ThreadStates) {events : List Event} {i : Nat}
    {event : Event}
    (found : events[i]? = some event)
    (fewFrames : (keptRun states events).1.tree.frames.entries.size ≤ 0x100000000)
    (few : (keptRun states events).1.tree.nodes.entries.size ≤ 0x80000000) :
    Spells (keptRun states events).1.tree ((keptRun states (events.take i)).1.tree.internStack
        (framesAfter states (events.take i) event) .root).1
      ((framesAfter states (events.take i) event).map Frame.displayKey) := by
  have next : events.take (i + 1) = events.take i ++ [event] := by
    rw [List.take_add_one, found]
    rfl
  -- the sample was numbered in an earlier tree, which the last one only adds to
  have first := grows_keptRun states (events.take i) (events.drop i)
  have later := grows_keptRun states (events.take (i + 1)) (events.drop (i + 1))
  rw [List.take_append_drop] at first later
  have within := within_keptRun states (stacksAfter states events)
    (fun observed event part => mem_stacksAfter states (part.trans (List.take_prefix i events)))
    (Nat.le_trans first.size_frames_le fewFrames) (Nat.le_trans first.size_nodes_le few)
  have among := mem_stacksAfter states (next ▸ List.take_prefix (i + 1) events)
  have tree := (keptRun_concat_eq states (events.take i) event).1
  rw [← next] at tree
  have spells := (within.internStack .root ⟨_, among, by simp⟩
    (tree ▸ Nat.le_trans later.size_frames_le fewFrames)
    (tree ▸ Nat.le_trans later.size_nodes_le few)).2
  rw [List.append_nil, ← tree] at spells
  exact spells.grow later

theorem callStack_keptRun {events : List Event} {i : Nat} {event : Event}
    (found : events[i]? = some event) {source : StackSource}
    (frames : source.frames = (keptRun states events).1.tree.frames.entries)
    (nodes : source.nodes = (keptRun states events).1.tree.nodes.entries)
    (fewFrames : source.frames.size ≤ 0x100000000) (few : source.nodes.size ≤ 0x80000000) :
    (source.callStack ((keptRun states (events.take i)).1.tree.internStack
        (framesAfter states (events.take i) event) .root).1).map Frame.displayKey =
      (framesAfter states (events.take i) event).map Frame.displayKey := by
  rw [frames] at fewFrames
  rw [nodes] at few
  have within := within_keptRun states (stacksAfter states events)
    (fun _ _ => mem_stacksAfter states) fewFrames few
  exact (spells_keptRun states found fewFrames few).callStack within.outward frames nodes

structure IsOfRun (run : Shared × Output) (source : StackSource) : Prop where
  frames : source.frames = run.1.tree.frames.entries
  nodes : source.nodes = run.1.tree.nodes.entries
  samples : source.samples = (StackSource.arrange run.2.samples.reverse).2
  blocked : source.blocked = run.2.states.map fun states =>
    states.report.rebase (StackSource.arrange run.2.samples.reverse).1

/-- A session of one worker comes to the samples of the events that it may keep. -/
theorem isOfRun_of_single {reader : Reader} (calm : reader.Faultless) {options : Options}
    (single : options.effectiveWorkers = 1) :
    ∃ source, read options reader = .ok source ∧
      IsOfRun (keptRun options.statesAtFirst (observed options reader)) source := by
  obtain ⟨last, working, found⟩ := read_of_single calm single
  obtain ⟨counts, taken⟩ := exists_counts_takeRecords options (recordsOf options reader) {}
    { states := options.statesAtFirst }
  have whole : outcome options reader =
      ((keptRun options.statesAtFirst (observed options reader)).1,
        { (keptRun options.statesAtFirst (observed options reader)).2 with counts }) := taken
  refine ⟨_, found, ?_⟩
  rw [whole]
  exact ⟨rfl, rfl, by simp [gather, alone, Pool.states], by rw [blocked_gather]⟩

end Session

end ProfileTrace
