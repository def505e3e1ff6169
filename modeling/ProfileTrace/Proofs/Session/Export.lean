import Mathlib.Data.List.Forall2
import ProfileTrace.Proofs.Document.Copy
import ProfileTrace.Proofs.Session.Numbering

/-! The exported document of a session. Whoever reads it has all tables of the source, and can walk
the stacks by the numbers in the rows alone. -/

namespace ProfileTrace

namespace Copy
open CallTree (Spells)
open Session (IsSmall)

/-- What is told of a source row by row. -/
structure Lists (source : StackSource) (copy : Copy) : Prop where
  names : copy.frames.map FrameRow.name = source.frames.toList.map Frame.displayKey
  nodes : copy.nodes.map (fun row => (row.caller, row.frame)) =
    source.nodes.toList.map fun node => (node.caller.value, (node.frame.index : Int))
  sampleIds : copy.samples.map SampleRow.id = (List.range copy.samples.length).map Int.ofNat
  samples : copy.samples.map (fun row => (row.time, row.stack)) = source.samples.map fun sample =>
    (sample.time.finite?, sample.stack.value)
  totalBlocked : copy.totalBlocked = source.totalBlocked.finite?
  /-- There are periods just when there are any, and then they are all of them in their order. -/
  periods : (copy.periods.isSome ↔ source.blockedPeriods ≠ []) ∧
    ∀ periods ∈ copy.periods, periods = source.blockedPeriods.map .ofPeriod

/-- Rows have their places for numbers and name only rows that are there, and a caller comes before
the rows that it calls. -/
structure IsClosed (copy : Copy) : Prop where
  frameIds : copy.frames.map FrameRow.id = (List.range copy.frames.length).map Int.ofNat
  nodeIds : copy.nodes.map NodeRow.id = (List.range copy.nodes.length).map Int.ofNat
  callers : ∀ row ∈ copy.nodes, row.caller = -1 ∨
    row.caller < row.id ∧ ∃ caller ∈ copy.nodes, caller.id = row.caller
  frames : ∀ row ∈ copy.nodes, ∃ frame ∈ copy.frames, frame.id = row.frame
  nodes : ∀ row ∈ copy.samples, ∃ stack ∈ copy.nodes, stack.id = row.stack

/-- Going from a stack to its caller, and on until there is none, meets frames of these names. -/
inductive Follows (copy : Copy) : Int → List String → Prop where
  | outside : Follows copy (-1) []
  | row {row : NodeRow} {frame : FrameRow} {names : List String} (here : row ∈ copy.nodes)
      (named : frame ∈ copy.frames) (same : frame.id = row.frame)
      (outer : Follows copy row.caller names) : Follows copy row.id (frame.name :: names)

/-! ### Rows of a source -/

section
variable {α β : Type} {items : List α} {row : Nat → α → β}

theorem mem_mapIdx_iff {found : β} : found ∈ items.mapIdx row ↔
    ∃ (place : Nat) (x : α), items[place]? = some x ∧ row place x = found := by
  simp only [List.mem_iff_getElem?, List.getElem?_mapIdx, Option.map_eq_some_iff]

theorem map_mapIdx {γ : Type} {told : β → γ} {tell : α → γ}
    (same : ∀ place x, told (row place x) = tell x) :
    (items.mapIdx row).map told = items.map tell := by
  apply List.ext_getElem?
  intro place
  simp [Function.comp_def, same]

theorem map_id_mapIdx {id : β → Int}
    (own : ∀ (place : Nat) x, place < items.length → id (row place x) = place) :
    (items.mapIdx row).map id = (List.range (items.mapIdx row).length).map Int.ofNat := by
  apply List.ext_getElem?
  intro place
  rw [List.getElem?_map, List.getElem?_map, List.getElem?_mapIdx, List.length_mapIdx]
  cases there : items[place]? with
  | none =>
    have behind := List.getElem?_eq_none_iff.mp there
    rw [List.getElem?_eq_none (by simpa using behind)]
    rfl
  | some x =>
    have inside := (List.getElem?_eq_some_iff.mp there).1
    rw [List.getElem?_range inside]
    exact congrArg some (own place x inside)

end

theorem lists_ofSource (source : StackSource) : (ofSource source).Lists source := by
  constructor
  case names => exact map_mapIdx fun _ _ => rfl
  case nodes => exact map_mapIdx fun _ _ => rfl
  case sampleIds => exact map_id_mapIdx fun _ _ _ => rfl
  case samples => exact map_mapIdx fun _ _ => rfl
  case totalBlocked => rfl
  case periods =>
    rw [ofSource]
    cases source.blockedPeriods with
    | nil => simp
    | cons first others => simp

theorem ofFrame_eq {place : Nat} (small : place < 0x100000000) (frame : Frame) :
    FrameRow.ofFrame place frame = ⟨place, frame.displayKey⟩ := by
  rw [FrameRow.ofFrame, Nat.mod_eq_of_lt small]

theorem ofNode_eq {place : Nat} (small : place < 0x80000000) (node : StackNode) :
    NodeRow.ofNode place node = ⟨place, node.caller.value, node.frame.index⟩ := by
  have value : Int.bmod place 0x100000000 = place := Int.bmod_eq_of_le (by omega) (by omega)
  unfold NodeRow.ofNode
  rw [value]

section
variable {tree : CallTree} {source : StackSource} (frames : source.frames = tree.frames.entries)
  (nodes : source.nodes = tree.nodes.entries) (small : IsSmall tree)

include frames small in
theorem mem_frames_iff {row : FrameRow} : row ∈ (ofSource source).frames ↔
    ∃ (place : Nat) (frame : Frame), tree.frames.entries[place]? = some frame ∧
      row = ⟨place, frame.displayKey⟩ := by
  refine mem_mapIdx_iff.trans (exists_congr fun place => exists_congr fun frame => ?_)
  rw [Array.getElem?_toList, frames, and_congr_right_iff]
  intro there
  have inside := (Array.getElem?_eq_some_iff.mp there).1
  rw [ofFrame_eq (Nat.lt_of_lt_of_le inside small.frames), eq_comm]

include nodes small in
theorem mem_nodes_iff {row : NodeRow} : row ∈ (ofSource source).nodes ↔
    ∃ (place : Nat) (node : StackNode), tree.nodes.entries[place]? = some node ∧
      row = ⟨place, node.caller.value, node.frame.index⟩ := by
  refine mem_mapIdx_iff.trans (exists_congr fun place => exists_congr fun node => ?_)
  rw [Array.getElem?_toList, nodes, and_congr_right_iff]
  intro there
  have inside := (Array.getElem?_eq_some_iff.mp there).1
  rw [ofNode_eq (Nat.lt_of_lt_of_le inside small.nodes), eq_comm]

include frames nodes small

theorem isClosed_ofSource (sound : tree.Sound)
    (spelled : ∀ sample ∈ source.samples, ∃ keys, keys ≠ [] ∧ Spells tree sample.stack keys) :
    (ofSource source).IsClosed := by
  have ofNode {row : NodeRow} : row ∈ (ofSource source).nodes ↔
      ∃ (place : Nat) (node : StackNode), tree.nodes.entries[place]? = some node ∧
        row = ⟨place, node.caller.value, node.frame.index⟩ := mem_nodes_iff nodes small
  constructor
  case frameIds =>
    refine map_id_mapIdx fun place frame inside => ?_
    rw [Array.length_toList, frames] at inside
    rw [ofFrame_eq (Nat.lt_of_lt_of_le inside small.frames)]
  case nodeIds =>
    refine map_id_mapIdx fun place node inside => ?_
    rw [Array.length_toList, nodes] at inside
    rw [ofNode_eq (Nat.lt_of_lt_of_le inside small.nodes)]
  case callers =>
    intro row among
    obtain ⟨place, node, there, rfl⟩ := ofNode.mp among
    obtain ⟨-, above, before⟩ := sound.node there
    rcases Int.lt_or_le node.caller.value 0 with outside | inside
    · exact .inl (by simp only; omega)
    · obtain ⟨caller, same⟩ := Int.eq_ofNat_of_zero_le inside
      have earlier : caller < tree.nodes.entries.size := by
        have last := (Array.getElem?_eq_some_iff.mp there).1
        omega
      exact .inr ⟨before, _, ofNode.mpr ⟨caller, _, Array.getElem?_eq_getElem earlier, rfl⟩,
        same.symm⟩
  case frames =>
    intro row among
    obtain ⟨place, node, there, rfl⟩ := ofNode.mp among
    have named := (sound.node there).1
    exact ⟨_, (mem_frames_iff frames small).mpr ⟨_, _, Array.getElem?_eq_getElem named, rfl⟩, rfl⟩
  case nodes =>
    intro row among
    obtain ⟨place, sample, there, rfl⟩ := mem_mapIdx_iff.mp among
    obtain ⟨keys, some, spells⟩ := spelled sample (List.mem_of_getElem? there)
    revert some
    generalize same : sample.stack = id at spells
    cases spells with
    | root => exact fun some => absurd rfl some
    | node found named outer =>
      intro some
      exact ⟨_, ofNode.mpr ⟨_, _, found, rfl⟩, congrArg StackId.value same.symm⟩

theorem follows_of_spells {id : StackId} {keys : List String} (spells : Spells tree id keys) :
    (ofSource source).Follows id.value keys := by
  induction spells with
  | root => exact .outside
  | node found named outer ih =>
    exact .row ((mem_nodes_iff nodes small).mpr ⟨_, _, found, rfl⟩)
      ((mem_frames_iff frames small).mpr ⟨_, _, named, rfl⟩) rfl ih

theorem spells_of_follows {id : Int} {names : List String}
    (follows : (ofSource source).Follows id names) : Spells tree ⟨id⟩ names := by
  induction follows with
  | outside => exact .root
  | row here named same outer ih =>
    obtain ⟨place, node, there, rfl⟩ := (mem_nodes_iff nodes small).mp here
    obtain ⟨index, frame, called, rfl⟩ := (mem_frames_iff frames small).mp named
    have own : index = node.frame.index := Int.ofNat.inj same
    rw [own] at called
    exact .node there called ih

theorem follows_iff (sound : tree.Sound) {id : StackId} {keys : List String}
    (spells : Spells tree id keys) {names : List String} :
    (ofSource source).Follows id.value names ↔
      names = (source.callStack id).map Frame.displayKey := by
  rw [spells.callStack sound.outward frames nodes]
  constructor
  · exact fun follows => (spells_of_follows frames nodes small follows).unique spells
  · rintro rfl
    exact follows_of_spells frames nodes small spells

end

end Copy

namespace Session

/-- The document of any source that a session gives, whatever the trace and the options are and
in whatever order the workers take their steps. Both layouts read back as the same value, which has
the tables of the source row by row, with times that are read as just those of the source and are
missing only where these are not finite; and as long as the tables are not longer than their
numbers reach, its rows name only each other, and following callers from a sample meets the display
keys of the sample's call stack and nothing else. -/
theorem exported_copy {options : Options} {reader : Reader} {schedule : List Nat}
    {source : StackSource}
    (result : ((Crew.start options reader).run options schedule).result = .ok source) :
    ∃ value copy, (∀ pretty, Json.read? (Document.text source pretty).toList = some value) ∧
      Copy.ofValue? value = some copy ∧ copy.Lists source ∧
      (source.frames.size ≤ 0x100000000 → source.nodes.size ≤ 0x80000000 →
        copy.IsClosed ∧
        List.Forall₂ (fun row sample => ∀ names, copy.Follows row.stack names ↔
          names = (source.callStack sample.stack).map Frame.displayKey)
          copy.samples source.samples) := by
  refine ⟨_, _, Document.read?_text source, Copy.ofValue?_ofTables source,
    Copy.lists_ofSource source, ?_⟩
  intro fewFrames few
  obtain ⟨tree, sound, small, frames, nodes, spelled⟩ :=
    Crew.exists_tree_of_result result fewFrames few
  refine ⟨Copy.isClosed_ofSource frames nodes small sound spelled, ?_⟩
  refine List.forall₂_iff_get.mpr ⟨List.length_mapIdx, fun place first inside names => ?_⟩
  obtain ⟨keys, -, spells⟩ := spelled _ (List.get_mem source.samples ⟨place, inside⟩)
  have row : (Copy.ofSource source).samples.get ⟨place, first⟩ =
      .ofSample place (source.samples.get ⟨place, inside⟩) := List.getElem_mapIdx
  rw [row]
  exact Copy.follows_iff frames nodes small sound spells

theorem report_relay : (ThreadStates.ofEvents relayEvents).report.periods =
    [⟨1, ⟨0x3FF8000000000000⟩, ⟨0x4004000000000000⟩, .explicit⟩,
      ⟨2, ⟨0x4004000000000000⟩, ⟨0x4008000000000000⟩, .induced⟩,
      ⟨1, ⟨0x400C000000000000⟩, ⟨0x4010000000000000⟩, .flushed⟩] := by
  have told : (fun states => (states.ended.toList, states.blocked.toList, states.last))
      (ThreadStates.ofEvents relayEvents) =
        ([⟨1, ⟨0x3FF8000000000000⟩, ⟨0x4004000000000000⟩, .explicit⟩,
          ⟨2, ⟨0x4004000000000000⟩, ⟨0x4008000000000000⟩, .induced⟩],
          [(1, ⟨0x400C000000000000⟩)], some ⟨0x4010000000000000⟩) := by
    decide +kernel
  simp only [Prod.mk.injEq] at told
  rw [ThreadStates.report, told.1, told.2.1, told.2.2]
  exact List.mergeSort_of_pairwise (by decide +kernel)

theorem times_relay : relayEvents.map Event.time =
    [⟨0x3FF0000000000000⟩, ⟨0x3FF8000000000000⟩, ⟨0x4004000000000000⟩, ⟨0x4008000000000000⟩,
      ⟨0x400C000000000000⟩, ⟨0x4010000000000000⟩] := by
  decide +kernel

theorem IsOfRun.relay {source : StackSource}
    (isOf : IsOfRun (keptRun (some {}) relayEvents) source) :
    source.samples.map Sample.time =
        [⟨0⟩, ⟨0x3FE0000000000000⟩, ⟨0x3FF8000000000000⟩, ⟨0x4000000000000000⟩,
          ⟨0x4004000000000000⟩, ⟨0x4008000000000000⟩] ∧
      source.blockedPeriods =
        [⟨1, ⟨0x3FE0000000000000⟩, ⟨0x3FF8000000000000⟩, .explicit⟩,
          ⟨2, ⟨0x3FF8000000000000⟩, ⟨0x4000000000000000⟩, .induced⟩,
          ⟨1, ⟨0x4004000000000000⟩, ⟨0x4008000000000000⟩, .flushed⟩] := by
  have times := times_keptRun (some {}) relayEvents
  rw [times_relay] at times
  have sorted : ((keptRun (some {}) relayEvents).2.samples.reverse.map Sample.time).Pairwise
      fun a b => a.totalLe b := by
    rw [times]
    decide +kernel
  constructor
  · rw [isOf.samples, StackSource.times_arrange_of_sorted sorted, times]
    decide +kernel
  · have blocked : source.blockedPeriods = (ThreadStates.ofEvents relayEvents).report.periods.map
        (BlockedPeriod.rebase (Seconds.earliest (relayEvents.map Event.time))) := by
      rw [StackSource.blockedPeriods, isOf.blocked, states_keptRun, StackSource.fst_arrange,
        times, times_relay]
      rfl
    rw [blocked, report_relay, times_relay]
    decide +kernel

theorem exported_copy_relay :
    ∃ source value copy,
      read { twoWorkers with threadTime := true } (Reader.ofBytes ⟨relayText.toArray⟩) =
          .ok source ∧
        source.frames.size ≤ 0x100000000 ∧ source.nodes.size ≤ 0x80000000 ∧
        (∀ pretty, Json.read? (Document.text source pretty).toList = some value) ∧
        Copy.ofValue? value = some copy ∧ copy.IsClosed ∧
        copy.samples.map SampleRow.time =
          [some ⟨0⟩, some ⟨0x3FE0000000000000⟩, some ⟨0x3FF8000000000000⟩,
            some ⟨0x4000000000000000⟩, some ⟨0x4004000000000000⟩, some ⟨0x4008000000000000⟩] ∧
        copy.periods =
          some [⟨1, some ⟨0x3FE0000000000000⟩, some ⟨0x3FF8000000000000⟩, "Explicit"⟩,
            ⟨2, some ⟨0x3FF8000000000000⟩, some ⟨0x4000000000000000⟩, "Induced"⟩,
            ⟨1, some ⟨0x4004000000000000⟩, some ⟨0x4008000000000000⟩, "Flushed"⟩] := by
  have calm := Reader.faultless_ofBytes ⟨relayText.toArray⟩
  have single : ({ twoWorkers with threadTime := true } : Options).effectiveWorkers = 1 := rfl
  have events : observed { twoWorkers with threadTime := true }
      (Reader.ofBytes ⟨relayText.toArray⟩) = relayEvents := by
    rw [observed, recordsOf, records_relay rfl rfl, filterMap_event]
    rfl
  obtain ⟨source, found, isOf⟩ := isOfRun_of_single calm single
  rw [events] at isOf
  obtain ⟨frames, nodes⟩ := size_keptRun_le (some {}) length_frames_relay
  have six : relayEvents.length = 6 := rfl
  have fewFrames : source.frames.size ≤ 0x100000000 := by
    rw [isOf.frames]
    exact frames.trans (by omega)
  have few : source.nodes.size ≤ 0x80000000 := by
    rw [isOf.nodes]
    exact nodes.trans (by omega)
  obtain ⟨schedule, -, same⟩ := Crew.exists_run_read { twoWorkers with threadTime := true }
    (Reader.ofBytes ⟨relayText.toArray⟩)
  obtain ⟨value, copy, reads, decoded, lists, closed⟩ := exported_copy (same.trans found)
  obtain ⟨times, periods⟩ := isOf.relay
  refine ⟨source, value, copy, found, fewFrames, few, reads, decoded, (closed fewFrames few).1,
    ?_, ?_⟩
  · have rows := congrArg (List.map Prod.fst) lists.samples
    simp only [List.map_map, Function.comp_def] at rows
    have told : copy.samples.map SampleRow.time =
        (source.samples.map Sample.time).map Seconds.finite? := by
      rw [List.map_map]
      exact rows
    rw [told, times]
    decide +kernel
  · have some : copy.periods.isSome := lists.periods.1.mpr (by simp [periods])
    obtain ⟨rows, there⟩ := Option.isSome_iff_exists.mp some
    rw [there, lists.periods.2 rows there, periods]
    decide +kernel

end Session

end ProfileTrace
