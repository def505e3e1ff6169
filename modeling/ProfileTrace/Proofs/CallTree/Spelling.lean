import Mathlib.Data.Finset.Card
import ProfileTrace.Proofs.CallTree.Interning
import ProfileTrace.StackSource

/-! What the numbers of a call tree stand for. A node spells the display keys from its frame out
to the root. A tree only grows, so that a number goes on to spell what it spelled first, and no
two numbers spell the same. -/

namespace ProfileTrace

namespace CallTree

/-- The number of a stack spells its display keys, the deepest first. -/
inductive Spells (tree : CallTree) : StackId → List String → Prop where
  | root : Spells tree .root []
  | node {place : Nat} {node : StackNode} {frame : Frame} {keys : List String}
      (found : tree.nodes.entries[place]? = some node)
      (named : tree.frames.entries[node.frame.index]? = some frame)
      (outer : Spells tree node.caller keys) : Spells tree ⟨place⟩ (frame.displayKey :: keys)

def Outward (tree : CallTree) : Prop :=
  ∀ (place : Nat) node, tree.nodes.entries[place]? = some node → node.caller.value < place

variable {tree grown : CallTree} {id other : StackId} {keys more : List String}

namespace Spells

theorem grow (spells : Spells tree id keys) (grows : Grows tree grown) : Spells grown id keys := by
  induction spells with
  | root => exact .root
  | node found named outer ih =>
    exact .node (grows.nodes _ _ found) (grows.frames _ _ named) ih

theorem bounds (spells : Spells tree id keys) :
    -1 ≤ id.value ∧ id.value < tree.nodes.entries.size := by
  cases spells with
  | root =>
    simp only [StackId.root]
    omega
  | node found named outer =>
    have inside := (Array.getElem?_eq_some_iff.mp found).1
    simp only
    omega

theorem keys_of_root (spells : Spells tree .root keys) : keys = [] := by
  generalize same : StackId.root = id at spells
  cases spells with
  | root => rfl
  | node found named outer =>
    have value := congrArg StackId.value same
    simp only [StackId.root] at value
    omega

theorem keys_of_node {place : Nat} (spells : Spells tree ⟨place⟩ keys) :
    ∃ node frame outer, tree.nodes.entries[place]? = some node ∧
      tree.frames.entries[node.frame.index]? = some frame ∧ Spells tree node.caller outer ∧
      keys = frame.displayKey :: outer := by
  generalize same : (⟨place⟩ : StackId) = id at spells
  cases spells with
  | root =>
    have value := congrArg StackId.value same
    simp only [StackId.root] at value
    omega
  | node found named outer =>
    have value := congrArg StackId.value same
    obtain rfl : _ = _ := Int.ofNat.inj value
    exact ⟨_, _, _, found, named, outer, rfl⟩

theorem unique (first : Spells tree id keys) (second : Spells tree id more) : keys = more := by
  induction first generalizing more with
  | root => exact second.keys_of_root.symm
  | node found named outer ih =>
    obtain ⟨node, frame, further, there, called, rest, rfl⟩ := second.keys_of_node
    rw [found, Option.some.injEq] at there
    subst there
    rw [named, Option.some.injEq] at called
    rw [called, ih rest]

theorem injective (first : Spells tree id keys) (second : Spells tree other keys) : id = other := by
  induction first generalizing other with
  | root =>
    cases second with
    | root => rfl
  | @node place node frame keys found named outer ih =>
    generalize same : frame.displayKey :: keys = all at second
    cases second with
    | root => cases same
    | @node otherPlace otherNode otherFrame otherKeys there called rest =>
      rw [List.cons.injEq] at same
      obtain ⟨key, rfl⟩ := same
      have frames : node.frame.index = otherNode.frame.index :=
        tree.frames.place_eq_of_key_eq named called key
      have callers : node.caller = otherNode.caller := ih rest
      have nodes : node = otherNode := by
        obtain ⟨⟨_⟩, _⟩ := node
        obtain ⟨⟨_⟩, _⟩ := otherNode
        cases frames
        cases callers
        rfl
      have places : place = otherPlace := by
        rw [nodes] at found
        exact tree.nodes.place_eq_of_key_eq found there rfl
      rw [places]

/-- What a node spells without its deepest frames is spelled as well, by a node if there is
anything left. -/
theorem suffix (spells : Spells tree id keys) (part : more <:+ keys) (some : more ≠ []) :
    ∃ place : Nat, place < tree.nodes.entries.size ∧ Spells tree ⟨place⟩ more := by
  induction spells with
  | root => exact absurd (List.suffix_nil.mp part) some
  | @node place node frame keys found named outer ih =>
    rcases List.suffix_cons_iff.mp part with rfl | inner
    · exact ⟨place, (Array.getElem?_eq_some_iff.mp found).1, .node found named outer⟩
    · exact ih inner

theorem mem_frames (spells : Spells tree id keys) {key : String} (among : key ∈ keys) :
    ∃ frame ∈ tree.frames.entries, frame.displayKey = key := by
  induction spells with
  | root => simp at among
  | node found named outer ih =>
    rcases List.mem_cons.mp among with rfl | inner
    · exact ⟨_, Array.mem_of_getElem? named, rfl⟩
    · exact ih inner

theorem callStack (spells : Spells tree id keys) (outward : tree.Outward) {source : StackSource}
    (frames : source.frames = tree.frames.entries) (nodes : source.nodes = tree.nodes.entries) :
    (source.callStack id).map Frame.displayKey = keys := by
  induction spells with
  | root =>
    rw [StackSource.callStack]
    rfl
  | @node place node frame keys found named outer ih =>
    have here : source.node? ⟨place⟩ = some node := by
      simp [StackSource.node?, StackId.index?, StackId.isNode, nodes, found]
    have called : source.frame? node.frame = some frame := by
      rw [StackSource.frame?, frames, named]
    have further : 0 ≤ (place : Int) ∧ node.caller.value < place :=
      ⟨Int.natCast_nonneg place, outward place node found⟩
    rw [StackSource.callStack, here]
    simp only [called, dif_pos further, Option.toList_some, List.singleton_append, List.map_cons, ih]

end Spells

def keysOf (all : List (List String)) : Finset String := all.flatten.toFinset

def pathsOf (all : List (List String)) : Finset (List String) :=
  (all.flatMap List.tails).toFinset.erase []

theorem mem_keysOf {all : List (List String)} {key : String} :
    key ∈ keysOf all ↔ ∃ stack ∈ all, key ∈ stack := by
  simp [keysOf]

theorem mem_pathsOf {all : List (List String)} {path : List String} :
    path ∈ pathsOf all ↔ path ≠ [] ∧ ∃ stack ∈ all, path <:+ stack := by
  simp [pathsOf]

/-- What a tree may hold: only these frame keys, and nodes that spell only these stacks. -/
structure Within (frameKeys : Finset String) (paths : Finset (List String)) (tree : CallTree) :
    Prop where
  outward : tree.Outward
  frames : ∀ frame ∈ tree.frames.entries, frame.displayKey ∈ frameKeys
  nodes : ∀ place < tree.nodes.entries.size, ∃ path ∈ paths, Spells tree ⟨place⟩ path

namespace Within
variable {frameKeys : Finset String} {paths : Finset (List String)}

theorem empty : Within frameKeys paths {} where
  outward place node found := by simp at found
  frames frame among := by simp at among
  nodes place inside := by simp at inside

theorem mono {more : Finset String} {further : Finset (List String)}
    (within : Within frameKeys paths tree) (keys : frameKeys ⊆ more) (all : paths ⊆ further) :
    Within more further tree where
  outward := within.outward
  frames frame among := keys (within.frames frame among)
  nodes place inside := by
    obtain ⟨path, member, spells⟩ := within.nodes place inside
    exact ⟨path, all member, spells⟩

theorem size_frames_le (within : Within frameKeys paths tree) :
    tree.frames.entries.size ≤ frameKeys.card := by
  have part : (tree.frames.entries.toList.map Frame.displayKey).toFinset ⊆ frameKeys := by
    intro key among
    obtain ⟨frame, there, rfl⟩ := List.mem_map.mp (List.mem_toFinset.mp among)
    exact within.frames frame (Array.mem_toList_iff.mp there)
  have size := Finset.card_le_card part
  rwa [List.toFinset_card_of_nodup tree.frames.nodup_keys, List.length_map,
    Array.length_toList] at size

theorem size_nodes_le (within : Within frameKeys paths tree) :
    tree.nodes.entries.size ≤ paths.card := by
  choose! path among spells using within.nodes
  calc
    tree.nodes.entries.size = (Finset.range tree.nodes.entries.size).card := by simp
    _ ≤ paths.card := by
      apply Finset.card_le_card_of_injOn path
      · intro place inside
        exact among place (Finset.mem_range.mp inside)
      · intro place inside otherPlace otherInside same
        have first := spells place (Finset.mem_range.mp inside)
        have second := spells otherPlace (Finset.mem_range.mp otherInside)
        rw [← same] at second
        have value := congrArg StackId.value (first.injective second)
        exact Int.ofNat.inj value

theorem frame_lt (within : Within frameKeys paths tree) {place : Nat} {node : StackNode}
    (found : tree.nodes.entries[place]? = some node) :
    node.frame.index < tree.frames.entries.size := by
  obtain ⟨path, -, spells⟩ := within.nodes place (Array.getElem?_eq_some_iff.mp found).1
  obtain ⟨same, frame, outer, there, named, -⟩ := spells.keys_of_node
  rw [found, Option.some.injEq] at there
  subst there
  exact (Array.getElem?_eq_some_iff.mp named).1

theorem narrow (within : Within frameKeys paths tree)
    (fewFrames : tree.frames.entries.size ≤ 0x100000000) : tree.Narrow := by
  intro node among
  obtain ⟨place, found⟩ := Array.mem_iff_getElem?.mp among
  exact Nat.lt_of_lt_of_le (within.frame_lt found) fewFrames

theorem internFrame (within : Within frameKeys paths tree) {frame : Frame}
    (among : frame.displayKey ∈ frameKeys) : Within frameKeys paths (tree.internFrame frame).2 where
  outward := within.outward
  frames other there := by
    rcases (tree.frames.interned_insert frame).mem there with old | rfl
    · exact within.frames other old
    · exact among
  nodes place inside := by
    obtain ⟨path, member, spells⟩ := within.nodes place inside
    exact ⟨path, member, spells.grow (grows_internFrame frame tree)⟩

theorem internNode (within : Within frameKeys paths tree) {frame : FrameId} {named : Frame}
    (there : tree.frames.entries[frame.index]? = some named) {caller : StackId}
    (outer : Spells tree caller keys) (among : named.displayKey :: keys ∈ paths) :
    Within frameKeys paths (tree.internNode frame caller).2 := by
  have interned := tree.nodes.interned_insert { frame, caller }
  have grows := grows_internNode frame caller tree
  refine ⟨?_, within.frames, ?_⟩
  · intro place node found
    rcases interned.getElem?_cases found with old | ⟨last, rfl⟩
    · exact within.outward place node old
    · rw [last]
      exact outer.bounds.2
  · intro place inside
    have found := Array.getElem?_eq_getElem inside
    rcases interned.getElem?_cases found with old | ⟨-, own⟩
    · obtain ⟨path, member, spells⟩ := within.nodes place (Array.getElem?_eq_some_iff.mp old).1
      exact ⟨path, member, spells.grow grows⟩
    · rw [own] at found
      exact ⟨_, among, .node found there (outer.grow grows)⟩

theorem spells_internNode (within : Within frameKeys paths tree)
    (fewFrames : tree.frames.entries.size ≤ 0x100000000) {frame : FrameId} {caller : StackId}
    (few : (tree.internNode frame caller).2.nodes.entries.size ≤ 0x80000000) {named : Frame}
    (there : tree.frames.entries[frame.index]? = some named) (outer : Spells tree caller keys) :
    Spells (tree.internNode frame caller).2 (tree.internNode frame caller).1
      (named.displayKey :: keys) := by
  have small := Nat.lt_of_lt_of_le (Array.getElem?_eq_some_iff.mp there).1 fewFrames
  obtain ⟨-, place, same, interned⟩ :=
    nodeInterned_internNode (within.narrow fewFrames) small few
  obtain ⟨node, found, rfl⟩ := interned.finds rfl
  rw [same]
  exact .node found there (outer.grow (grows_internNode frame caller tree))

theorem internStack {all : List (List String)} (within : Within (keysOf all) (pathsOf all) tree)
    {start : StackId} (outer : Spells tree start keys) {frames : List Frame}
    (among : ∃ whole ∈ all, frames.map Frame.displayKey ++ keys <:+ whole)
    (fewFrames : (tree.internStack frames start).2.frames.entries.size ≤ 0x100000000)
    (few : (tree.internStack frames start).2.nodes.entries.size ≤ 0x80000000) :
    Within (keysOf all) (pathsOf all) (tree.internStack frames start).2 ∧
      Spells (tree.internStack frames start).2 (tree.internStack frames start).1
        (frames.map Frame.displayKey ++ keys) := by
  induction frames with
  | nil => exact ⟨within, outer⟩
  | cons frame frames ih =>
    obtain ⟨whole, member, part⟩ := among
    rw [List.map_cons, List.cons_append] at part ⊢
    have key : frame.displayKey ∈ keysOf all :=
      mem_keysOf.mpr ⟨whole, member, part.subset List.mem_cons_self⟩
    have path : frame.displayKey :: (frames.map Frame.displayKey ++ keys) ∈ pathsOf all :=
      mem_pathsOf.mpr ⟨List.cons_ne_nil _ _, whole, member, part⟩
    have last := grows_internNode ((tree.internStack frames start).2.internFrame frame).1
      (tree.internStack frames start).1 ((tree.internStack frames start).2.internFrame frame).2
    have framed := grows_internFrame frame (tree.internStack frames start).2
    obtain ⟨inner, below⟩ := ih ⟨whole, member, (List.suffix_cons _ _).trans part⟩
      (Nat.le_trans (framed.trans last).size_frames_le fewFrames)
      (Nat.le_trans (framed.trans last).size_nodes_le few)
    have fewBefore := Nat.le_trans last.size_frames_le fewFrames
    obtain ⟨named, there, same⟩ := (frameInterned_internFrame fewBefore).frames.finds rfl
    have wide := inner.internFrame key
    have further := below.grow framed
    rw [← same] at path ⊢
    exact ⟨wide.internNode there further path,
      wide.spells_internNode fewBefore few there further⟩

/-- A tree with a number for each of the stacks that it may hold has the frames of just these, and
a node for each of their paths. -/
theorem complete {all : List (List String)}
    (within : Within (keysOf all) (pathsOf all) tree)
    (spelled : ∀ stack ∈ all, ∃ id, Spells tree id stack) :
    (tree.frames.entries.toList.map Frame.displayKey).toFinset = keysOf all ∧
      tree.nodes.entries.size = (pathsOf all).card := by
  constructor
  · ext key
    rw [List.mem_toFinset, List.mem_map]
    constructor
    · rintro ⟨frame, there, rfl⟩
      exact within.frames frame (Array.mem_toList_iff.mp there)
    · intro among
      obtain ⟨stack, inside, part⟩ := mem_keysOf.mp among
      obtain ⟨id, spells⟩ := spelled stack inside
      obtain ⟨frame, there, same⟩ := spells.mem_frames part
      exact ⟨frame, Array.mem_toList_iff.mpr there, same⟩
  · apply Nat.le_antisymm within.size_nodes_le
    -- a path has a node of its own, since no node spells two of them
    have placed : ∀ path ∈ pathsOf all, ∃ place : Nat, place < tree.nodes.entries.size ∧
        Spells tree ⟨place⟩ path := by
      intro path among
      obtain ⟨some, stack, inside, part⟩ := mem_pathsOf.mp among
      obtain ⟨id, spells⟩ := spelled stack inside
      exact spells.suffix part some
    choose! place inside spells using placed
    calc
      (pathsOf all).card ≤ (Finset.range tree.nodes.entries.size).card := by
        apply Finset.card_le_card_of_injOn place
        · intro path among
          exact Finset.mem_coe.mpr (Finset.mem_range.mpr (inside path among))
        · intro path among other there same
          have first := spells path among
          rw [same] at first
          exact first.unique (spells other there)
      _ = tree.nodes.entries.size := Finset.card_range _

end Within

def Sound (tree : CallTree) : Prop := ∃ frameKeys paths, Within frameKeys paths tree

namespace Sound

theorem empty : Sound {} := ⟨∅, ∅, .empty⟩

theorem outward (sound : tree.Sound) : tree.Outward := by
  obtain ⟨_, _, within⟩ := sound
  exact within.outward

theorem node (sound : tree.Sound) {place : Nat} {node : StackNode}
    (found : tree.nodes.entries[place]? = some node) :
    node.frame.index < tree.frames.entries.size ∧ -1 ≤ node.caller.value ∧
      node.caller.value < place := by
  obtain ⟨_, _, within⟩ := sound
  obtain ⟨path, -, spells⟩ := within.nodes place (Array.getElem?_eq_some_iff.mp found).1
  obtain ⟨same, frame, outer, there, named, called, -⟩ := spells.keys_of_node
  rw [found, Option.some.injEq] at there
  subst there
  exact ⟨(Array.getElem?_eq_some_iff.mp named).1, called.bounds.1, within.outward place _ found⟩

theorem internFrame (sound : tree.Sound) (frame : Frame) : (tree.internFrame frame).2.Sound := by
  obtain ⟨frameKeys, paths, within⟩ := sound
  have wider := within.mono (Finset.subset_insert frame.displayKey _) (Finset.Subset.refl _)
  exact ⟨_, _, wider.internFrame (Finset.mem_insert_self _ _)⟩

section
variable (sound : tree.Sound) {frame : FrameId} {named : Frame}
  (there : tree.frames.entries[frame.index]? = some named) {caller : StackId}
  (outer : Spells tree caller keys)
include sound there outer

theorem internNode : (tree.internNode frame caller).2.Sound := by
  obtain ⟨frameKeys, paths, within⟩ := sound
  have wider := within.mono (Finset.Subset.refl _)
    (Finset.subset_insert (named.displayKey :: keys) _)
  exact ⟨_, _, wider.internNode there outer (Finset.mem_insert_self _ _)⟩

theorem spells_internNode (fewFrames : tree.frames.entries.size ≤ 0x100000000)
    (few : (tree.internNode frame caller).2.nodes.entries.size ≤ 0x80000000) :
    Spells (tree.internNode frame caller).2 (tree.internNode frame caller).1
      (named.displayKey :: keys) := by
  obtain ⟨_, _, within⟩ := sound
  exact within.spells_internNode fewFrames few there outer

end

end Sound

end CallTree

end ProfileTrace
