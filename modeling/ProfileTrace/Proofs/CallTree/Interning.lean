import Mathlib.Data.List.Induction
import Mathlib.Data.List.Nodup
import ProfileTrace.CallTree

/-! The tables of a call tree as an index that is only ever added to. What is asked for is given
the place where it is, or it is put after all others. Requests may come in any order and name any
frames and callers, those without an entry too. -/

namespace ProfileTrace

/-- A list of entries is asked for one. It has the place of one like it, and only when there is
none is the entry added. -/
inductive Interned {α : Type} (like : α → Prop) (entry : α) (before : Array α) :
    Nat → Array α → Prop where
  | found {place : Nat} {old : α} (there : before[place]? = some old) (same : like old) :
      Interned like entry before place before
  | added (absent : ∀ old ∈ before, ¬like old) :
      Interned like entry before before.size (before.push entry)

namespace Interned
variable {α : Type} {like other : α → Prop} {entry old : α} {before after : Array α} {place : Nat}

theorem keeps (interned : Interned like entry before place after) {i : Nat}
    (there : before[i]? = some old) : after[i]? = some old := by
  cases interned with
  | found _ _ => exact there
  | added absent =>
    have inside := (Array.getElem?_eq_some_iff.mp there).1
    rw [Array.getElem?_push_lt inside, ← Array.getElem?_eq_getElem inside, there]

theorem finds (interned : Interned like entry before place after) (own : like entry) :
    ∃ old, after[place]? = some old ∧ like old := by
  cases interned with
  | found there same => exact ⟨_, there, same⟩
  | added absent => exact ⟨entry, Array.getElem?_push_size, own⟩

theorem lt_size (interned : Interned like entry before place after) : place < after.size := by
  cases interned with
  | found there same => exact (Array.getElem?_eq_some_iff.mp there).1
  | added absent => simp

theorem size_le (interned : Interned like entry before place after) :
    after.size ≤ before.size + 1 := by
  cases interned with
  | found there same => exact Nat.le_succ _
  | added absent => simp

theorem getElem?_cases (interned : Interned like entry before place after) {i : Nat}
    (there : after[i]? = some old) : before[i]? = some old ∨ i = before.size ∧ old = entry := by
  cases interned with
  | found _ _ => exact .inl there
  | added absent =>
    rw [Array.getElem?_push] at there
    split at there
    next last => exact .inr ⟨last, (Option.some.inj there).symm⟩
    next => exact .inl there

theorem mem (interned : Interned like entry before place after) (among : old ∈ after) :
    old ∈ before ∨ old = entry := by
  obtain ⟨i, there⟩ := Array.mem_iff_getElem?.mp among
  rcases interned.getElem?_cases there with here | ⟨-, own⟩
  · exact .inl (Array.mem_of_getElem? here)
  · exact .inr own

theorem imp (interned : Interned like entry before place after)
    (same : ∀ old ∈ before, like old ↔ other old) : Interned other entry before place after := by
  cases interned with
  | found there alike => exact .found there ((same _ (Array.mem_of_getElem? there)).mp alike)
  | added absent =>
    exact .added fun old among alike => absent old among ((same old among).mpr alike)

end Interned

namespace Table
variable {α κ : Type} [BEq κ] [Hashable κ] {keyOf : α → κ}

theorem interned_insert [LawfulBEq κ] (entry : α) (table : Table keyOf) :
    Interned (fun old => keyOf old = keyOf entry) entry table.entries (table.insert entry).1
      (table.insert entry).2.entries := by
  unfold insert
  split
  next place found =>
    have there := (table.places_eq_some_iff _ _).mp found
    obtain ⟨old, here, same⟩ := Option.map_eq_some_iff.mp there
    exact .found here same
  next missing =>
    refine .added fun old among same => ?_
    obtain ⟨place, there⟩ := Array.mem_iff_getElem?.mp among
    have found := (table.places_eq_some_iff (keyOf entry) place).mpr (by simp [there, same])
    rw [missing] at found
    cases found

theorem fst_insert [LawfulBEq κ] {entry : α} {table : Table keyOf} {place : Nat}
    (there : table.entries[place]? = some entry) : (table.insert entry).1 = place := by
  have interned := table.interned_insert entry
  obtain ⟨old, found, same⟩ := interned.finds rfl
  exact (table.insert entry).2.place_eq_of_key_eq found (interned.keeps there) same

theorem nodup_keys (table : Table keyOf) : (table.entries.toList.map keyOf).Nodup := by
  rw [List.nodup_iff_injective_getElem]
  intro i j same
  simp only [List.getElem_map, Array.getElem_toList] at same
  apply Fin.ext
  exact table.place_eq_of_key_eq (Array.getElem?_eq_getElem _) (Array.getElem?_eq_getElem _) same

end Table

theorem StackNode.eq_of_packed_eq {first second : StackNode}
    (small : first.frame.index < 0x100000000) (short : second.frame.index < 0x100000000)
    (same : first.packed = second.packed) :
    first = second := by
  obtain ⟨⟨frame⟩, ⟨caller⟩⟩ := first
  obtain ⟨⟨otherFrame⟩, ⟨otherCaller⟩⟩ := second
  simp only [packed] at small short same
  have frames : frame = otherFrame := by omega
  have callers : caller = otherCaller := by omega
  rw [frames, callers]

namespace CallTree

/-- All frames and nodes of a tree are where they were in the grown one. -/
structure Grows (tree grown : CallTree) : Prop where
  frames : ∀ (place : Nat) frame, tree.frames.entries[place]? = some frame →
    grown.frames.entries[place]? = some frame
  nodes : ∀ (place : Nat) node, tree.nodes.entries[place]? = some node →
    grown.nodes.entries[place]? = some node

/-- The frames of all nodes have numbers of 32 bits, whether or not there are such frames. -/
def Narrow (tree : CallTree) : Prop := ∀ node ∈ tree.nodes.entries, node.frame.index < 0x100000000

variable {tree between grown : CallTree}

namespace Grows

theorem refl (tree : CallTree) : Grows tree tree := ⟨fun _ _ => id, fun _ _ => id⟩

theorem trans (first : Grows tree between) (second : Grows between grown) : Grows tree grown where
  frames place frame there := second.frames place frame (first.frames place frame there)
  nodes place node there := second.nodes place node (first.nodes place node there)

theorem size_frames_le (grows : Grows tree grown) :
    tree.frames.entries.size ≤ grown.frames.entries.size := by
  by_contra more
  have there := Array.getElem?_eq_getElem (Nat.lt_of_not_le more)
  have kept := grows.frames _ _ there
  exact Nat.lt_irrefl _ (Array.getElem?_eq_some_iff.mp kept).1

theorem size_nodes_le (grows : Grows tree grown) :
    tree.nodes.entries.size ≤ grown.nodes.entries.size := by
  by_contra more
  have there := Array.getElem?_eq_getElem (Nat.lt_of_not_le more)
  have kept := grows.nodes _ _ there
  exact Nat.lt_irrefl _ (Array.getElem?_eq_some_iff.mp kept).1

theorem frame? (grows : Grows tree grown) {id : FrameId} {frame : Frame}
    (found : tree.frame? id = some frame) : grown.frame? id = some frame :=
  grows.frames id.index frame found

theorem node? (grows : Grows tree grown) {id : StackId} {node : StackNode}
    (found : tree.node? id = some node) : grown.node? id = some node := by
  obtain ⟨place, here, there⟩ := Option.bind_eq_some_iff.mp found
  exact Option.bind_eq_some_iff.mpr ⟨place, here, grows.nodes place node there⟩

end Grows

/-! ### Frames -/

structure FrameInterned (tree : CallTree) (frame : Frame) (id : FrameId) (after : CallTree) : Prop
    where
  frames : Interned (fun old => old.displayKey = frame.displayKey) frame tree.frames.entries
    id.index after.frames.entries
  nodes : after.nodes.entries = tree.nodes.entries

theorem grows_internFrame (frame : Frame) (tree : CallTree) :
    Grows tree (tree.internFrame frame).2 :=
  ⟨fun _ _ there => (tree.frames.interned_insert frame).keeps there, fun _ _ there => there⟩

theorem index_internFrame_lt (frame : Frame) (tree : CallTree) :
    (tree.internFrame frame).1.index < 0x100000000 :=
  Nat.mod_lt _ (by decide)

theorem frameInterned_internFrame {frame : Frame}
    (few : (tree.internFrame frame).2.frames.entries.size ≤ 0x100000000) :
    FrameInterned tree frame (tree.internFrame frame).1 (tree.internFrame frame).2 := by
  have interned := tree.frames.interned_insert frame
  have small : (tree.internFrame frame).1.index = (tree.frames.insert frame).1 :=
    Nat.mod_eq_of_lt (Nat.lt_of_lt_of_le interned.lt_size few)
  refine ⟨?_, rfl⟩
  rw [small]
  exact interned

theorem fst_internFrame {place : Nat} {frame : Frame}
    (few : tree.frames.entries.size ≤ 0x100000000)
    (there : tree.frames.entries[place]? = some frame) : (tree.internFrame frame).1 = ⟨place⟩ := by
  have inside := (Array.getElem?_eq_some_iff.mp there).1
  have small : (tree.frames.insert frame).1 % 0x100000000 = place := by
    rw [Table.fst_insert there, Nat.mod_eq_of_lt (Nat.lt_of_lt_of_le inside few)]
  exact congrArg FrameId.mk small

/-! ### Nodes -/

structure NodeInterned (tree : CallTree) (frame : FrameId) (caller id : StackId)
    (after : CallTree) : Prop where
  frames : after.frames.entries = tree.frames.entries
  nodes : ∃ place : Nat, id = ⟨place⟩ ∧
    Interned (fun old => old = ⟨frame, caller⟩) ⟨frame, caller⟩ tree.nodes.entries place
      after.nodes.entries

theorem grows_internNode (frame : FrameId) (caller : StackId) (tree : CallTree) :
    Grows tree (tree.internNode frame caller).2 := by
  have interned := tree.nodes.interned_insert { frame, caller }
  exact ⟨fun _ _ there => there, fun _ _ there => interned.keeps there⟩

theorem Narrow.internNode (narrow : tree.Narrow) {frame : FrameId}
    (small : frame.index < 0x100000000) (caller : StackId) :
    (tree.internNode frame caller).2.Narrow := by
  intro node among
  rcases (tree.nodes.interned_insert { frame, caller }).mem among with old | rfl
  · exact narrow node old
  · exact small

theorem nodeInterned_internNode (narrow : tree.Narrow) {frame : FrameId}
    (small : frame.index < 0x100000000) {caller : StackId}
    (few : (tree.internNode frame caller).2.nodes.entries.size ≤ 0x80000000) :
    NodeInterned tree frame caller (tree.internNode frame caller).1
      (tree.internNode frame caller).2 := by
  have interned := tree.nodes.interned_insert { frame, caller }
  have inside : (tree.nodes.insert { frame, caller }).1 < 0x80000000 :=
    Nat.lt_of_lt_of_le interned.lt_size few
  have value : Int.bmod (tree.nodes.insert { frame, caller }).1 0x100000000 =
      (tree.nodes.insert { frame, caller }).1 :=
    Int.bmod_eq_of_le (by omega) (by omega)
  refine ⟨rfl, _, congrArg StackId.mk value, interned.imp fun old among => ⟨?_, ?_⟩⟩
  · exact StackNode.eq_of_packed_eq (narrow old among) small
  · exact congrArg StackNode.packed

theorem size_nodes_internNode_le (frame : FrameId) (caller : StackId) (tree : CallTree) :
    (tree.internNode frame caller).2.nodes.entries.size ≤ tree.nodes.entries.size + 1 := by
  have interned := tree.nodes.interned_insert { frame, caller }
  exact interned.size_le

theorem fst_internNode {place : Nat} {node : StackNode} (few : tree.nodes.entries.size ≤ 0x80000000)
    (there : tree.nodes.entries[place]? = some node) :
    (tree.internNode node.frame node.caller).1 = ⟨place⟩ := by
  have inside := (Array.getElem?_eq_some_iff.mp there).1
  have small : Int.bmod (tree.nodes.insert node).1 0x100000000 = place := by
    rw [Table.fst_insert there]
    exact Int.bmod_eq_of_le (by omega) (by omega)
  exact congrArg StackId.mk small

/-! ### Stacks -/

/-- A stack is asked for from its last frame on: each frame is interned, and then its node under
the stack so far. -/
inductive StackInterned (tree : CallTree) (start : StackId) :
    List Frame → StackId → CallTree → Prop where
  | nil : StackInterned tree start [] start tree
  | cons {frame : Frame} {frames : List Frame} {caller id : StackId} {named : FrameId}
      {outer between after : CallTree} (further : StackInterned tree start frames caller outer)
      (framed : FrameInterned outer frame named between)
      (joined : NodeInterned between named caller id after) :
      StackInterned tree start (frame :: frames) id after

theorem internStack_concat (frames : List Frame) (frame : Frame) (caller : StackId)
    (tree : CallTree) :
    tree.internStack (frames ++ [frame]) caller =
      ((tree.internFrame frame).2.internNode (tree.internFrame frame).1 caller).2.internStack frames
        ((tree.internFrame frame).2.internNode (tree.internFrame frame).1 caller).1 := by
  simp only [internStack, List.foldr_append, List.foldr_cons, List.foldr_nil]

theorem grows_internStack (frames : List Frame) (start : StackId) (tree : CallTree) :
    Grows tree (tree.internStack frames start).2 := by
  induction frames with
  | nil => exact .refl tree
  | cons frame frames ih =>
    exact (ih.trans (grows_internFrame frame _)).trans (grows_internNode _ _ _)

theorem Narrow.internStack (narrow : tree.Narrow) (frames : List Frame) (start : StackId) :
    (tree.internStack frames start).2.Narrow := by
  induction frames with
  | nil => exact narrow
  | cons frame frames ih => exact Narrow.internNode ih (index_internFrame_lt frame _) _

theorem stackInterned_internStack (narrow : tree.Narrow) {frames : List Frame} {start : StackId}
    (fewFrames : (tree.internStack frames start).2.frames.entries.size ≤ 0x100000000)
    (few : (tree.internStack frames start).2.nodes.entries.size ≤ 0x80000000) :
    StackInterned tree start frames (tree.internStack frames start).1
      (tree.internStack frames start).2 := by
  induction frames with
  | nil => exact .nil
  | cons frame frames ih =>
    have last := grows_internNode ((tree.internStack frames start).2.internFrame frame).1
      (tree.internStack frames start).1 ((tree.internStack frames start).2.internFrame frame).2
    have grows := (grows_internFrame frame (tree.internStack frames start).2).trans last
    have further := ih (Nat.le_trans grows.size_frames_le fewFrames)
      (Nat.le_trans grows.size_nodes_le few)
    refine .cons further (frameInterned_internFrame (Nat.le_trans last.size_frames_le fewFrames)) ?_
    have still : ((tree.internStack frames start).2.internFrame frame).2.Narrow :=
      narrow.internStack frames start
    exact nodeInterned_internNode still (index_internFrame_lt frame _) few

theorem size_frames_internStack_le (frames : List Frame) (start : StackId) (tree : CallTree) :
    (tree.internStack frames start).2.frames.entries.size ≤
      tree.frames.entries.size + frames.length := by
  induction frames with
  | nil => exact Nat.le_refl _
  | cons frame frames ih =>
    have one := ((tree.internStack frames start).2.frames.interned_insert frame).size_le
    exact Nat.le_trans one (Nat.succ_le_succ ih)

theorem size_nodes_internStack_le (frames : List Frame) (start : StackId) (tree : CallTree) :
    (tree.internStack frames start).2.nodes.entries.size ≤
      tree.nodes.entries.size + frames.length := by
  induction frames with
  | nil => exact Nat.le_refl _
  | cons frame frames ih =>
    have one := size_nodes_internNode_le ((tree.internStack frames start).2.internFrame frame).1
      (tree.internStack frames start).1 ((tree.internStack frames start).2.internFrame frame).2
    exact Nat.le_trans one (Nat.succ_le_succ ih)

/-! ### Any requests -/

inductive Request where
  | internFrame (frame : Frame)
  | internNode (frame : UInt32) (caller : Int32)
  | internStack (frames : List Frame) (start : Int32)

namespace Request

def apply (tree : CallTree) : Request → CallTree
  | .internFrame frame => (tree.internFrame frame).2
  | .internNode frame caller => (tree.internNode ⟨frame.toNat⟩ ⟨caller.toInt⟩).2
  | .internStack frames start => (tree.internStack frames ⟨start.toInt⟩).2

/-- The answer is the place of what was asked for, and the tree has a new entry only for what it
did not have. -/
def IsExact (tree : CallTree) : Request → Prop
  | .internFrame frame =>
      FrameInterned tree frame (tree.internFrame frame).1 (tree.internFrame frame).2
  | .internNode frame caller =>
      NodeInterned tree ⟨frame.toNat⟩ ⟨caller.toInt⟩
        (tree.internNode ⟨frame.toNat⟩ ⟨caller.toInt⟩).1
        (tree.internNode ⟨frame.toNat⟩ ⟨caller.toInt⟩).2
  | .internStack frames start =>
      StackInterned tree ⟨start.toInt⟩ frames (tree.internStack frames ⟨start.toInt⟩).1
        (tree.internStack frames ⟨start.toInt⟩).2

def weight : Request → Nat
  | .internFrame _ => 1
  | .internNode _ _ => 1
  | .internStack frames _ => frames.length

theorem grows_apply (tree : CallTree) (request : Request) : Grows tree (request.apply tree) := by
  cases request with
  | internFrame frame => exact grows_internFrame frame tree
  | internNode frame caller => exact grows_internNode _ _ tree
  | internStack frames start => exact grows_internStack frames _ tree

theorem narrow_apply (narrow : tree.Narrow) (request : Request) : (request.apply tree).Narrow := by
  cases request with
  | internFrame frame => exact narrow
  | internNode frame caller =>
    have small : (⟨frame.toNat⟩ : FrameId).index < 0x100000000 := frame.toNat_lt
    exact narrow.internNode small _
  | internStack frames start => exact narrow.internStack frames _

theorem isExact (narrow : tree.Narrow) {request : Request}
    (fewFrames : (request.apply tree).frames.entries.size ≤ 0x100000000)
    (few : (request.apply tree).nodes.entries.size ≤ 0x80000000) : request.IsExact tree := by
  cases request with
  | internFrame frame => exact frameInterned_internFrame fewFrames
  | internNode frame caller => exact nodeInterned_internNode narrow frame.toNat_lt few
  | internStack frames start => exact stackInterned_internStack narrow fewFrames few

theorem size_frames_apply_le (tree : CallTree) (request : Request) :
    (request.apply tree).frames.entries.size ≤ tree.frames.entries.size + request.weight := by
  cases request with
  | internFrame frame => exact (tree.frames.interned_insert frame).size_le
  | internNode frame caller => exact Nat.le_add_right _ _
  | internStack frames start => exact size_frames_internStack_le frames _ tree

theorem size_nodes_apply_le (tree : CallTree) (request : Request) :
    (request.apply tree).nodes.entries.size ≤ tree.nodes.entries.size + request.weight := by
  cases request with
  | internFrame frame => exact Nat.le_add_right _ _
  | internNode frame caller => exact size_nodes_internNode_le _ _ tree
  | internStack frames start => exact size_nodes_internStack_le frames _ tree

end Request

def ofRequests (requests : List Request) : CallTree := requests.foldl Request.apply {}

theorem ofRequests_append (earlier later : List Request) :
    ofRequests (earlier ++ later) = later.foldl Request.apply (ofRequests earlier) :=
  List.foldl_append

theorem grows_foldl (requests : List Request) (tree : CallTree) :
    Grows tree (requests.foldl Request.apply tree) := by
  induction requests generalizing tree with
  | nil => exact .refl tree
  | cons request requests ih => exact (request.grows_apply tree).trans (ih _)

theorem grows_ofRequests (earlier later : List Request) :
    Grows (ofRequests earlier) (ofRequests (earlier ++ later)) := by
  rw [ofRequests_append]
  exact grows_foldl later _

theorem narrow_ofRequests (requests : List Request) : (ofRequests requests).Narrow := by
  induction requests using List.reverseRecOn with
  | nil =>
    intro node among
    simp [ofRequests] at among
  | append_singleton requests request ih =>
    rw [ofRequests_append]
    exact request.narrow_apply ih

def totalWeight (requests : List Request) : Nat :=
  requests.foldl (fun total request => total + request.weight) 0

theorem totalWeight_concat (requests : List Request) (request : Request) :
    totalWeight (requests ++ [request]) = totalWeight requests + request.weight :=
  List.foldl_append

theorem size_ofRequests_le (requests : List Request) :
    (ofRequests requests).frames.entries.size ≤ totalWeight requests ∧
      (ofRequests requests).nodes.entries.size ≤ totalWeight requests := by
  induction requests using List.reverseRecOn with
  | nil => exact ⟨Nat.le_refl 0, Nat.le_refl 0⟩
  | append_singleton requests request ih =>
    rw [ofRequests_append, totalWeight_concat]
    exact ⟨Nat.le_trans (request.size_frames_apply_le _) (Nat.add_le_add_right ih.1 _),
      Nat.le_trans (request.size_nodes_apply_le _) (Nat.add_le_add_right ih.2 _)⟩

/-- Whatever a call tree is asked for, its tables are an exact index as long as they are not
longer than their numbers reach. No display key and no pair of caller and frame is there twice,
each entry has its place for a number, each request is answered with that of what it asks for and
adds no more than what is missing, and a number goes on to stand for the same. -/
theorem exact_of_requests (requests : List Request)
    (fewFrames : (ofRequests requests).frames.entries.size ≤ 0x100000000)
    (few : (ofRequests requests).nodes.entries.size ≤ 0x80000000) :
    ((ofRequests requests).frames.entries.toList.map Frame.displayKey).Nodup ∧
      ((ofRequests requests).nodes.entries.toList.map fun node => (node.caller, node.frame)).Nodup ∧
      (∀ (place : Nat) frame, (ofRequests requests).frames.entries[place]? = some frame →
        ((ofRequests requests).internFrame frame).1 = ⟨place⟩) ∧
      (∀ (place : Nat) node, (ofRequests requests).nodes.entries[place]? = some node →
        ((ofRequests requests).internNode node.frame node.caller).1 = ⟨place⟩) ∧
      (∀ earlier request later, requests = earlier ++ request :: later →
        request.IsExact (ofRequests earlier)) ∧
      ∀ earlier later, requests = earlier ++ later →
        (∀ id frame, (ofRequests earlier).frame? id = some frame →
          (ofRequests requests).frame? id = some frame) ∧
        ∀ id node, (ofRequests earlier).node? id = some node →
          (ofRequests requests).node? id = some node := by
  refine ⟨(ofRequests requests).frames.nodup_keys, ?_, fun _ _ => fst_internFrame fewFrames,
    fun _ _ => fst_internNode few, ?_, ?_⟩
  · -- the table tells nodes apart by their packed numbers, which are not the same for one pair
    have nodes := List.Nodup.of_map _ (ofRequests requests).nodes.nodup_keys
    refine nodes.map ?_
    rintro ⟨frame, caller⟩ ⟨other, further⟩ same
    simp only [Prod.mk.injEq] at same
    rw [same.1, same.2]
  · rintro earlier request later rfl
    have grows := grows_ofRequests (earlier ++ [request]) later
    rw [List.append_assoc, List.singleton_append, ofRequests_append earlier [request]] at grows
    exact request.isExact (narrow_ofRequests earlier)
      (Nat.le_trans grows.size_frames_le fewFrames) (Nat.le_trans grows.size_nodes_le few)
  · rintro earlier later rfl
    have grows := grows_ofRequests earlier later
    exact ⟨fun _ _ => grows.frame?, fun _ _ => grows.node?⟩

/-- A node of a frame and a caller that are not there, the same again, and a stack under it. -/
def strayRequests : List Request :=
  [.internNode 7 (-5), .internNode 7 (-5), .internStack [.process "a", .thread 1] 0,
    .internFrame (.process "a")]

theorem exact_of_strayRequests :
    (ofRequests strayRequests).frames.entries.size ≤ 0x100000000 ∧
      (ofRequests strayRequests).nodes.entries.size ≤ 0x80000000 ∧
      ((ofRequests strayRequests).frames.entries.toList.map Frame.displayKey).Nodup ∧
      (Request.internNode 7 (-5)).IsExact (ofRequests [.internNode 7 (-5)]) := by
  obtain ⟨frames, nodes⟩ := size_ofRequests_le strayRequests
  have fewFrames := Nat.le_trans frames (by decide : _ ≤ 0x100000000)
  have few := Nat.le_trans nodes (by decide : _ ≤ 0x80000000)
  obtain ⟨distinct, -, -, -, exact, -⟩ := exact_of_requests strayRequests fewFrames few
  exact ⟨fewFrames, few, distinct, exact [.internNode 7 (-5)] _ _ rfl⟩

end CallTree

end ProfileTrace
