import ProfileTrace.Proofs.CallTree.Spelling
import ProfileTrace.Proofs.Session.Chronology
import ProfileTrace.Proofs.Session.Timed

/-! The numbers that the workers of a session have from their tree. Whatever the trace is and in
whatever order the steps come, each number spells something in the tree as it is then, and so it
does to the end. A sample has the number of a node, since no event is without frames. -/

namespace ProfileTrace.Session
open CallTree (Grows Spells)

theorem frames_ne_nil_of_mem {accepts : String → Bool} {text : List UInt8} {record : Record}
    (among : record ∈ Record.ofText accepts text) {event : Event}
    (found : record.event? = some event) : event.frames ≠ [] := by
  intro none
  have roots := rootFrames_of_mem (List.mem_filterMap.mpr ⟨record, among, found⟩)
  rw [Event.rootFrames, none] at roots
  cases roots

theorem fst_framesOf_ne_nil {event : Event} (some : event.frames ≠ [])
    (states : Option ThreadStates) : (framesOf event states).1 ≠ [] := by
  cases states with
  | none => exact some
  | some states => exact List.cons_ne_nil _ _

/-- What is in work spells something, and there is more of a stack to come if it does not yet. -/
inductive Stage.Spelled (tree : CallTree) : Stage → Prop where
  | idle : Spelled tree .idle
  | reading {records : List Record} : Spelled tree (.reading records)
  | climbing {time : Seconds} {frames : List Frame} {caller : StackId} {records : List Record}
      {keys : List String} (outer : Spells tree caller keys) (some : frames = [] → keys ≠ []) :
      Spelled tree (.climbing time frames caller records)
  | joining {time : Seconds} {frame : FrameId} {frames : List Frame} {caller : StackId}
      {records : List Record} {named : Frame} {keys : List String}
      (there : tree.frames.entries[frame.index]? = some named) (outer : Spells tree caller keys) :
      Spelled tree (.joining time frame frames caller records)
  | finished : Spelled tree .finished

structure Agent.Spelled (tree : CallTree) (agent : Agent) : Prop where
  stage : agent.stage.Spelled tree
  left : ∀ record ∈ agent.stage.left, ∀ event, record.event? = some event → event.frames ≠ []
  samples : ∀ sample ∈ agent.output.samples,
    ∃ keys, keys ≠ [] ∧ Spells tree sample.stack keys

structure Crew.Spelled (crew : Crew) : Prop where
  sound : crew.shared.tree.Sound
  agents : ∀ agent ∈ crew.agents, agent.Spelled crew.shared.tree

structure IsSmall (tree : CallTree) : Prop where
  frames : tree.frames.entries.size ≤ 0x100000000
  nodes : tree.nodes.entries.size ≤ 0x80000000

theorem IsSmall.of_grows {tree grown : CallTree} (small : IsSmall grown)
    (grows : Grows tree grown) : IsSmall tree where
  frames := Nat.le_trans grows.size_frames_le small.frames
  nodes := Nat.le_trans grows.size_nodes_le small.nodes

variable {options : Options} {tree grown : CallTree} {crew : Crew} {agent : Agent}
  {scene after : Scene}

theorem Stage.Spelled.grow {stage : Stage} (spelled : stage.Spelled tree)
    (grows : Grows tree grown) : stage.Spelled grown := by
  cases spelled with
  | idle => exact .idle
  | reading => exact .reading
  | climbing outer some => exact .climbing (outer.grow grows) some
  | joining there outer => exact .joining (grows.frames _ _ there) (outer.grow grows)
  | finished => exact .finished

theorem Agent.Spelled.grow (spelled : agent.Spelled tree) (grows : Grows tree grown) :
    agent.Spelled grown where
  stage := spelled.stage.grow grows
  left := spelled.left
  samples sample among := by
    obtain ⟨keys, some, spells⟩ := spelled.samples sample among
    exact ⟨keys, some, spells.grow grows⟩

namespace Scene

theorem Move.grows (move : Move options scene after) :
    Grows scene.shared.tree after.shared.tree := by
  cases move with
  | frame => exact CallTree.grows_internFrame _ _
  | node => exact CallTree.grows_internNode _ _ _
  | _ => exact .refl _

/-- A step keeps the tree sound and leaves its worker with numbers that spell something. -/
theorem Move.spelled (move : Move options scene after) (small : IsSmall after.shared.tree)
    (sound : scene.shared.tree.Sound) (spelled : scene.agent.Spelled scene.shared.tree) :
    after.shared.tree.Sound ∧ after.agent.Spelled after.shared.tree := by
  have grows := move.grows
  have samples := (spelled.grow grows).samples
  obtain ⟨stage, left, -⟩ := spelled
  cases move with
  | exhausted found => exact ⟨sound, .finished, by simp [Stage.left], samples⟩
  | chunk found => exact ⟨sound, .reading, fun record among event => frames_ne_nil_of_mem among,
      samples⟩
  | done => exact ⟨sound, .idle, by simp [Stage.left], samples⟩
  | passed none =>
    exact ⟨sound, .reading, fun record among => left record (List.mem_cons_of_mem _ among), samples⟩
  | refused found full => exact ⟨sound, .finished, by simp [Stage.left], samples⟩
  | claimed found room =>
    have some := fst_framesOf_ne_nil (left _ List.mem_cons_self _ found)
    refine ⟨sound, .climbing .root fun none => ?_,
      fun record among => left record (List.mem_cons_of_mem _ among), samples⟩
    exact absurd (List.reverse_eq_nil_iff.mp none) (some _)
  | kept =>
    cases stage with
    | climbing outer some =>
      refine ⟨sound, .reading, left, ?_⟩
      intro sample among
      rcases List.mem_cons.mp among with rfl | before
      · exact ⟨_, some rfl, outer⟩
      · exact samples sample before
  | frame =>
    cases stage with
    | climbing outer some =>
      obtain ⟨named, there, -⟩ := (CallTree.frameInterned_internFrame small.frames).frames.finds rfl
      exact ⟨sound.internFrame _, .joining there (outer.grow grows), left, samples⟩
  | node =>
    cases stage with
    | joining there outer =>
      have inner := sound.spells_internNode there outer (small.of_grows grows).frames small.nodes
      exact ⟨sound.internNode there outer, .climbing inner fun _ => List.cons_ne_nil _ _, left,
        samples⟩
  | still => exact ⟨sound, .finished, left, samples⟩

end Scene

namespace Crew

theorem spelled_start (options : Options) (reader : Reader) : Spelled (start options reader) where
  sound := .empty
  agents := by
    intro agent among
    rw [List.eq_of_mem_replicate among]
    exact ⟨.idle, by simp [Stage.left], by simp⟩

theorem Spelled.move (spelled : crew.Spelled) {i : Nat} (found : crew.agents[i]? = some agent)
    (move : Scene.Move options ⟨crew.feed, crew.shared, agent⟩ after)
    (small : IsSmall after.shared.tree) :
    Spelled ⟨after.feed, after.shared, crew.agents.set i after.agent⟩ := by
  obtain ⟨sound, agents⟩ := spelled
  obtain ⟨still, own⟩ := move.spelled small sound (agents agent (List.mem_of_getElem? found))
  refine ⟨still, ?_⟩
  intro other among
  rcases List.mem_or_eq_of_mem_set among with old | rfl
  · exact (agents other old).grow move.grows
  · exact own

theorem spelled_run {reader : Reader} {schedule : List Nat}
    (small : IsSmall ((start options reader).run options schedule).shared.tree) :
    Spelled ((start options reader).run options schedule) := by
  -- a tree that is small in the end was small before, since it only grows
  have move {crew : Crew} {i : Nat} {agent : Agent} {after : Scene}
      (before : IsSmall crew.shared.tree → Spelled crew) (found : crew.agents[i]? = some agent)
      (move : Scene.Move options ⟨crew.feed, crew.shared, agent⟩ after)
      (small : IsSmall after.shared.tree) :
      Spelled ⟨after.feed, after.shared, crew.agents.set i after.agent⟩ :=
    (before (small.of_grows move.grows)).move found move small
  exact @run_induction _ _ (fun crew => IsSmall crew.shared.tree → Spelled crew) move
    (fun _ => spelled_start options reader) schedule small

theorem tables_of_result {source : StackSource} (result : crew.result = .ok source) :
    source.frames = crew.shared.tree.frames.entries ∧
      source.nodes = crew.shared.tree.nodes.entries := by
  unfold Crew.result at result
  split at result
  · cases result
  · cases result
    exact ⟨rfl, rfl⟩

/-- The tables of a result are those of a sound tree, in which each sample has the number of a
node. -/
theorem exists_tree_of_result {reader : Reader} {schedule : List Nat} {source : StackSource}
    (result : ((start options reader).run options schedule).result = .ok source)
    (fewFrames : source.frames.size ≤ 0x100000000) (few : source.nodes.size ≤ 0x80000000) :
    ∃ tree : CallTree, tree.Sound ∧ IsSmall tree ∧ source.frames = tree.frames.entries ∧
      source.nodes = tree.nodes.entries ∧
      ∀ sample ∈ source.samples, ∃ keys, keys ≠ [] ∧ Spells tree sample.stack keys := by
  obtain ⟨frames, nodes⟩ := tables_of_result result
  have small : IsSmall ((start options reader).run options schedule).shared.tree :=
    ⟨frames ▸ fewFrames, nodes ▸ few⟩
  have spelled := spelled_run small
  refine ⟨_, spelled.sound, small, frames, nodes, ?_⟩
  intro sample among
  rw [samples_of_result result, (StackSource.snd_arrange_perm _).mem_iff] at among
  obtain ⟨taken, there, rfl⟩ := List.mem_map.mp among
  obtain ⟨agent, working, its⟩ := List.mem_flatMap.mp there
  exact (spelled.agents agent working).samples taken (List.mem_reverse.mp its)

end Crew

end ProfileTrace.Session
