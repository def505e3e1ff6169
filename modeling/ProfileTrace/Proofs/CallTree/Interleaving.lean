import Mathlib.Algebra.Order.BigOperators.Group.Finset
import Mathlib.Data.Fintype.Basic
import ProfileTrace.Proofs.CallTree.Spelling

/-! Workers that intern stacks in one call tree. In one step a worker has one frame or one node
interned, and the steps of the others may come between any two of them. What a number stands for
does not depend on that, nor does how many frames and nodes there are in the end. -/

namespace ProfileTrace

namespace CallTree

inductive Stage where
  | idle
  /-- It interns the next frame of the stack, from the root on, or has the number of the stack. -/
  | climbing (stack frames : List Frame) (caller : StackId)
  /-- It interns the node of a frame under its caller. -/
  | joining (stack frames : List Frame) (frame : FrameId) (caller : StackId)

/-- A worker with the stacks that it has not begun, and the ones that it has the numbers of. -/
structure Worker where
  stage : Stage := .idle
  waiting : List (List Frame)
  answers : List (List Frame × StackId) := []

def Worker.IsFinished (worker : Worker) : Prop :=
  worker.stage = .idle ∧ worker.waiting = []

def Worker.step (tree : CallTree) (worker : Worker) : CallTree × Worker :=
  match worker.stage with
  | .idle =>
      match worker.waiting with
      | [] => (tree, worker)
      | stack :: waiting =>
          (tree, { worker with stage := .climbing stack stack.reverse .root, waiting })
  | .climbing stack [] id =>
      (tree, { worker with stage := .idle, answers := worker.answers ++ [(stack, id)] })
  | .climbing stack (frame :: frames) caller =>
      let (id, tree) := tree.internFrame frame
      (tree, { worker with stage := .joining stack frames id caller })
  | .joining stack frames frame caller =>
      let (id, tree) := tree.internNode frame caller
      (tree, { worker with stage := .climbing stack frames id })

structure Team (count : Nat) where
  tree : CallTree
  workers : Fin count → Worker

namespace Team
variable {count : Nat}

def start (calls : Fin count → List (List Frame)) : Team count where
  tree := {}
  workers i := { waiting := calls i }

def step (team : Team count) (i : Fin count) : Team count where
  tree := ((team.workers i).step team.tree).1
  workers := Function.update team.workers i ((team.workers i).step team.tree).2

theorem tree_step (team : Team count) (i : Fin count) :
    (team.step i).tree = ((team.workers i).step team.tree).1 := rfl

@[simp] theorem workers_step_self (team : Team count) (i : Fin count) :
    (team.step i).workers i = ((team.workers i).step team.tree).2 :=
  Function.update_self _ _ _

theorem workers_step_of_ne (team : Team count) {i j : Fin count} (other : j ≠ i) :
    (team.step i).workers j = team.workers j :=
  Function.update_of_ne other _ _

def run (team : Team count) (schedule : List (Fin count)) : Team count := schedule.foldl step team

def IsFinished (team : Team count) : Prop := ∀ i, (team.workers i).IsFinished

def keyLists (calls : Fin count → List (List Frame)) : List (List String) :=
  (List.ofFn calls).flatten.map fun stack => stack.map Frame.displayKey

theorem mem_keyLists {calls : Fin count → List (List Frame)} {i : Fin count} {stack : List Frame}
    (among : stack ∈ calls i) : stack.map Frame.displayKey ∈ keyLists calls :=
  List.mem_map_of_mem (List.mem_flatten_of_mem (List.mem_ofFn.mpr ⟨i, rfl⟩) among)

theorem run_append (team : Team count) (first second : List (Fin count)) :
    team.run (first ++ second) = (team.run first).run second :=
  List.foldl_append

theorem run_concat (team : Team count) (schedule : List (Fin count)) (i : Fin count) :
    team.run (schedule ++ [i]) = (team.run schedule).step i := by
  rw [run_append]
  rfl

end Team

/-! ### One step -/

/-- The stack that is in work is that of its frames still to come and of those that its caller
spells. -/
inductive Stage.Holds (tree : CallTree) : Stage → List (List Frame) → Prop where
  | idle : Holds tree .idle []
  | climbing {stack frames : List Frame} {caller : StackId} {keys : List String}
      (outer : Spells tree caller keys)
      (whole : stack.map Frame.displayKey = (frames.map Frame.displayKey).reverse ++ keys) :
      Holds tree (.climbing stack frames caller) [stack]
  | joining {stack frames : List Frame} {frame : FrameId} {named : Frame} {caller : StackId}
      {keys : List String} (there : tree.frames.entries[frame.index]? = some named)
      (outer : Spells tree caller keys)
      (whole : stack.map Frame.displayKey =
        (frames.map Frame.displayKey).reverse ++ named.displayKey :: keys) :
      Holds tree (.joining stack frames frame caller) [stack]

/-- A worker has the numbers of its first calls, which spell them, is at the next one, and has the
others before it. -/
inductive Worker.Follows (tree : CallTree) (worker : Worker) (calls : List (List Frame)) :
    Prop where
  | intro {current : List (List Frame)} (holds : worker.stage.Holds tree current)
      (order : worker.answers.map Prod.fst ++ current ++ worker.waiting = calls)
      (answered : ∀ answer ∈ worker.answers,
        Spells tree answer.2 (answer.1.map Frame.displayKey))

section
variable {tree grown : CallTree} {worker : Worker} {calls : List (List Frame)}

theorem Stage.Holds.grow {stage : Stage} (holds : stage.Holds tree calls)
    (grows : Grows tree grown) : stage.Holds grown calls := by
  cases holds with
  | idle => exact .idle
  | climbing outer whole => exact .climbing (outer.grow grows) whole
  | joining there outer whole =>
    exact .joining (grows.frames _ _ there) (outer.grow grows) whole

namespace Worker

theorem Follows.grow (follows : worker.Follows tree calls) (grows : Grows tree grown) :
    worker.Follows grown calls := by
  cases follows with
  | intro holds order answered =>
    exact .intro (holds.grow grows) order fun answer among => (answered answer among).grow grows

theorem grows_step (tree : CallTree) (worker : Worker) : Grows tree (worker.step tree).1 := by
  obtain ⟨stage, waiting, answers⟩ := worker
  cases stage with
  | idle => cases waiting <;> exact .refl tree
  | climbing stack frames caller =>
    cases frames with
    | nil => exact .refl tree
    | cons frame frames => exact grows_internFrame frame tree
  | joining stack frames frame caller => exact grows_internNode frame caller tree

theorem size_step_le (tree : CallTree) (worker : Worker) :
    (worker.step tree).1.frames.entries.size ≤ tree.frames.entries.size + 1 ∧
      (worker.step tree).1.nodes.entries.size ≤ tree.nodes.entries.size + 1 := by
  obtain ⟨stage, waiting, answers⟩ := worker
  cases stage with
  | idle => cases waiting <;> exact ⟨Nat.le_succ _, Nat.le_succ _⟩
  | climbing stack frames caller =>
    cases frames with
    | nil => exact ⟨Nat.le_succ _, Nat.le_succ _⟩
    | cons frame frames => exact ⟨(tree.frames.interned_insert frame).size_le, Nat.le_succ _⟩
  | joining stack frames frame caller =>
    exact ⟨Nat.le_succ _, size_nodes_internNode_le frame caller tree⟩

theorem Follows.step {all : List (List String)} (within : Within (keysOf all) (pathsOf all) tree)
    (follows : worker.Follows tree calls)
    (allowed : ∀ stack ∈ calls, stack.map Frame.displayKey ∈ all)
    (fewFrames : (worker.step tree).1.frames.entries.size ≤ 0x100000000)
    (few : (worker.step tree).1.nodes.entries.size ≤ 0x80000000) :
    Within (keysOf all) (pathsOf all) (worker.step tree).1 ∧
      (worker.step tree).2.Follows (worker.step tree).1 calls := by
  have grows := grows_step tree worker
  obtain ⟨stage, waiting, answers⟩ := worker
  cases follows with
  | @intro current holds order answered =>
    have still : ∀ answer ∈ answers, Spells (Worker.step tree ⟨stage, waiting, answers⟩).1 answer.2
        (answer.1.map Frame.displayKey) :=
      fun answer among => (answered answer among).grow grows
    cases holds with
    | idle =>
      cases waiting with
      | nil => exact ⟨within, .intro .idle order answered⟩
      | cons stack waiting =>
        have whole : stack.map Frame.displayKey =
            (stack.reverse.map Frame.displayKey).reverse ++ [] := by
          simp
        rw [List.append_nil, List.append_cons] at order
        exact ⟨within, .intro (.climbing .root whole) order answered⟩
    | @climbing stack frames caller keys outer whole =>
      have among : stack.map Frame.displayKey ∈ all := allowed stack (by simp [← order])
      cases frames with
      | nil =>
        refine ⟨within, .intro .idle ?_ ?_⟩
        · simpa [Worker.step] using order
        · intro answer last
          rcases List.mem_append.mp last with old | new
          · exact answered answer old
          · obtain rfl := List.mem_singleton.mp new
            simp only [whole]
            exact outer
      | cons frame frames =>
        rw [List.map_cons, List.reverse_cons, List.append_assoc, List.singleton_append] at whole
        have inside : frame.displayKey ∈ keysOf all :=
          mem_keysOf.mpr ⟨_, among, by simp [whole]⟩
        obtain ⟨named, there, same⟩ := (frameInterned_internFrame fewFrames).frames.finds rfl
        rw [← same] at whole
        exact ⟨within.internFrame inside,
          .intro (.joining there (outer.grow grows) whole) order still⟩
    | @joining stack frames frame named caller keys there outer whole =>
      have among : stack.map Frame.displayKey ∈ all := allowed stack (by simp [← order])
      have inside : named.displayKey :: keys ∈ pathsOf all :=
        mem_pathsOf.mpr ⟨List.cons_ne_nil _ _, _, among, _, whole.symm⟩
      have spells := within.spells_internNode fewFrames few there outer
      exact ⟨within.internNode there outer inside, .intro (.climbing spells whole) order still⟩

theorem Follows.finished (follows : worker.Follows tree calls) (done : worker.IsFinished) :
    worker.answers.map Prod.fst = calls := by
  obtain ⟨stage, waiting, answers⟩ := worker
  obtain ⟨rfl, rfl⟩ := done
  cases follows with
  | intro holds order answered =>
    cases holds
    simpa using order

end Worker

end

/-! ### All steps -/

def Worker.left (worker : Worker) : Nat :=
  let started := match worker.stage with
    | .idle => 0
    | .climbing _ frames _ => 2 * frames.length + 1
    | .joining _ frames _ _ => 2 * frames.length + 2
  started + 2 * (worker.waiting.flatten.length + worker.waiting.length)

theorem Worker.left_step_lt (tree : CallTree) {worker : Worker} (busy : ¬worker.IsFinished) :
    (worker.step tree).2.left < worker.left := by
  obtain ⟨stage, waiting, answers⟩ := worker
  cases stage with
  | idle =>
    cases waiting with
    | nil => exact absurd ⟨rfl, rfl⟩ busy
    | cons stack waiting =>
      simp only [step, left, List.length_reverse, List.flatten_cons, List.length_append,
        List.length_cons]
      omega
  | climbing stack frames caller =>
    cases frames with
    | nil =>
      simp only [step, left, List.length_nil]
      omega
    | cons frame frames =>
      simp only [step, left, List.length_cons]
      omega
  | joining stack frames frame caller =>
    simp only [step, left]
    omega

namespace Team
variable {count : Nat} {calls : Fin count → List (List Frame)} {team : Team count}

structure Inv (calls : Fin count → List (List Frame)) (team : Team count) : Prop where
  within : Within (keysOf (keyLists calls)) (pathsOf (keyLists calls)) team.tree
  follows : ∀ i, (team.workers i).Follows team.tree (calls i)

theorem inv_start (calls : Fin count → List (List Frame)) : (start calls).Inv calls where
  within := .empty
  follows i := .intro .idle rfl (by simp [start])

theorem grows_step (team : Team count) (i : Fin count) : Grows team.tree (team.step i).tree :=
  Worker.grows_step team.tree (team.workers i)

theorem Inv.step (inv : team.Inv calls) (i : Fin count)
    (fewFrames : (team.step i).tree.frames.entries.size ≤ 0x100000000)
    (few : (team.step i).tree.nodes.entries.size ≤ 0x80000000) : (team.step i).Inv calls := by
  obtain ⟨within, follows⟩ :=
    (inv.follows i).step inv.within (fun _ => mem_keyLists) fewFrames few
  refine ⟨within, fun j => ?_⟩
  by_cases same : j = i
  · subst same
    rw [workers_step_self]
    exact follows
  · rw [workers_step_of_ne team same]
    exact (inv.follows j).grow (grows_step team i)

theorem inv_run (calls : Fin count → List (List Frame)) (schedule : List (Fin count))
    (fewFrames : ((start calls).run schedule).tree.frames.entries.size ≤ 0x100000000)
    (few : ((start calls).run schedule).tree.nodes.entries.size ≤ 0x80000000) :
    ((start calls).run schedule).Inv calls := by
  induction schedule using List.reverseRecOn with
  | nil => exact inv_start calls
  | append_singleton schedule i ih =>
    rw [run_concat] at fewFrames few ⊢
    have grows := grows_step ((start calls).run schedule) i
    have before := ih (Nat.le_trans grows.size_frames_le fewFrames)
      (Nat.le_trans grows.size_nodes_le few)
    exact before.step i fewFrames few

theorem exists_run_on (team : Team count) : ∃ more, (team.run more).IsFinished := by
  generalize size : ∑ i, (team.workers i).left = total
  induction total using Nat.strongRecOn generalizing team with
  | ind total ih =>
    by_cases done : team.IsFinished
    · exact ⟨[], done⟩
    · obtain ⟨i, busy⟩ := not_forall.mp done
      -- one worker has a step less to do, and the others as many as before
      have less : ∑ j, ((team.step i).workers j).left < ∑ j, (team.workers j).left := by
        have own := Worker.left_step_lt team.tree busy
        apply Finset.sum_lt_sum
        · intro j _
          by_cases same : j = i
          · subst same
            rw [workers_step_self]
            exact Nat.le_of_lt own
          · rw [workers_step_of_ne team same]
        · refine ⟨i, Finset.mem_univ i, ?_⟩
          rwa [workers_step_self]
      obtain ⟨more, finished⟩ := ih _ (size ▸ less) (team.step i) rfl
      exact ⟨i :: more, finished⟩

/-- A worker that nobody comes between gets the number that the stack has at once. -/
theorem exists_run_climb {i : Fin count} {stack frames : List Frame} {caller : StackId}
    {waiting : List (List Frame)} {answers : List (List Frame × StackId)}
    (here : team.workers i = ⟨.climbing stack frames caller, waiting, answers⟩) :
    ∃ steps, (team.run (List.replicate steps i)).tree =
        (team.tree.internStack frames.reverse caller).2 ∧
      (team.run (List.replicate steps i)).workers i =
        ⟨.idle, waiting, answers ++ [(stack, (team.tree.internStack frames.reverse caller).1)]⟩ := by
  induction frames generalizing team caller with
  | nil =>
    refine ⟨1, ?_, ?_⟩
    · simp [run, tree_step, here, Worker.step, internStack]
    · simp [run, here, Worker.step, internStack]
  | cons frame frames ih =>
    rw [List.reverse_cons, internStack_concat]
    have next : ((team.step i).step i).workers i = ⟨.climbing stack frames
        ((team.tree.internFrame frame).2.internNode (team.tree.internFrame frame).1 caller).1,
        waiting, answers⟩ := by
      simp [tree_step, here, Worker.step]
    have tree : ((team.step i).step i).tree =
        ((team.tree.internFrame frame).2.internNode (team.tree.internFrame frame).1 caller).2 := by
      simp [tree_step, here, Worker.step]
    obtain ⟨steps, climbed⟩ := ih next
    rw [tree] at climbed
    exact ⟨steps + 2, climbed⟩

theorem exists_run_alone {i : Fin count} {stack : List Frame} {waiting : List (List Frame)}
    {answers : List (List Frame × StackId)}
    (here : team.workers i = ⟨.idle, stack :: waiting, answers⟩) :
    ∃ steps, (team.run (List.replicate steps i)).tree = (team.tree.internStack stack .root).2 ∧
      (team.run (List.replicate steps i)).workers i =
        ⟨.idle, waiting, answers ++ [(stack, (team.tree.internStack stack .root).1)]⟩ := by
  have next : (team.step i).workers i =
      ⟨.climbing stack stack.reverse .root, waiting, answers⟩ := by
    simp [here, Worker.step]
  have tree : (team.step i).tree = team.tree := by simp [tree_step, here, Worker.step]
  obtain ⟨steps, climbed⟩ := exists_run_climb next
  rw [List.reverse_reverse, tree] at climbed
  exact ⟨steps + 1, climbed⟩

theorem caller_cases {tree : CallTree} {frameKeys : Finset String} {paths : Finset (List String)}
    (within : Within frameKeys paths tree) {place : Nat} {node : StackNode}
    (found : tree.nodes.entries[place]? = some node) :
    node.caller = .root ∨ ∃ below < place, node.caller = ⟨(below : Nat)⟩ := by
  have before := within.outward place node found
  obtain ⟨path, -, spells⟩ := within.nodes place (Array.getElem?_eq_some_iff.mp found).1
  obtain ⟨same, frame, outer, there, -, further, -⟩ := spells.keys_of_node
  rw [found, Option.some.injEq] at there
  subst there
  have bound := further.bounds.1
  obtain ⟨frame, ⟨value⟩⟩ := node
  by_cases root : value = -1
  · rw [root]
    exact .inl rfl
  · have nonneg : 0 ≤ value := by
      simp only at bound
      omega
    obtain ⟨below, rfl⟩ := Int.eq_ofNat_of_zero_le nonneg
    exact .inr ⟨below, Int.ofNat_lt.mp before, rfl⟩

theorem Inv.answered (inv : team.Inv calls) {i : Fin count} {answer : List Frame × StackId}
    (among : answer ∈ (team.workers i).answers) :
    Spells team.tree answer.2 (answer.1.map Frame.displayKey) := by
  cases inv.follows i with
  | intro holds order answered => exact answered answer among

theorem Inv.answers_prefix (inv : team.Inv calls) (i : Fin count) :
    (team.workers i).answers.map Prod.fst <+: calls i := by
  cases inv.follows i with
  | @intro current holds order answered =>
    rw [← order, List.append_assoc]
    exact List.prefix_append _ _

/-- When all workers are done, all stacks have their numbers, so that the tree is complete. -/
theorem Inv.complete (inv : team.Inv calls) (done : team.IsFinished) :
    team.tree.frames.entries.size = (keysOf (keyLists calls)).card ∧
      team.tree.nodes.entries.size = (pathsOf (keyLists calls)).card := by
  have spelled : ∀ keys ∈ keyLists calls, ∃ id, Spells team.tree id keys := by
    intro keys among
    obtain ⟨stack, inside, rfl⟩ := List.mem_map.mp among
    obtain ⟨own, there, member⟩ := List.mem_flatten.mp inside
    obtain ⟨i, rfl⟩ := List.mem_ofFn.mp there
    rw [← (inv.follows i).finished (done i)] at member
    obtain ⟨answer, given, rfl⟩ := List.mem_map.mp member
    exact ⟨answer.2, inv.answered given⟩
  obtain ⟨frames, nodes⟩ := inv.within.complete spelled
  rw [← frames, List.toFinset_card_of_nodup team.tree.frames.nodup_keys, List.length_map,
    Array.length_toList]
  exact ⟨rfl, nodes⟩

theorem size_run_le (team : Team count) (schedule : List (Fin count)) :
    (team.run schedule).tree.frames.entries.size ≤
        team.tree.frames.entries.size + schedule.length ∧
      (team.run schedule).tree.nodes.entries.size ≤
        team.tree.nodes.entries.size + schedule.length := by
  induction schedule using List.reverseRecOn with
  | nil => exact ⟨Nat.le_refl _, Nat.le_refl _⟩
  | append_singleton schedule i ih =>
    rw [run_concat, List.length_append, List.length_singleton]
    obtain ⟨frames, nodes⟩ := ((team.run schedule).workers i).size_step_le (team.run schedule).tree
    exact ⟨Nat.le_trans frames (Nat.succ_le_succ ih.1), Nat.le_trans nodes (Nat.succ_le_succ ih.2)⟩

/-- In whatever order workers take their steps on one call tree, it comes out the same but for its
numbers. Each number that a worker has got spells the display keys of its call out to the root, and
two calls have one number just when they have the same keys. Callers come before the nodes that
they call. Workers that are done have the numbers of all their calls in order, and the tree has one
frame for each display key and one node for each path to the root; they can get there from
anywhere. -/
theorem canonical_of_any_schedule (calls : Fin count → List (List Frame))
    (schedule : List (Fin count)) {team : Team count} (reached : (start calls).run schedule = team)
    (fewFrames : team.tree.frames.entries.size ≤ 0x100000000)
    (few : team.tree.nodes.entries.size ≤ 0x80000000) :
    (∀ i, ∀ answer ∈ (team.workers i).answers,
        Spells team.tree answer.2 (answer.1.map Frame.displayKey)) ∧
      (∀ i j, ∀ first ∈ (team.workers i).answers, ∀ second ∈ (team.workers j).answers,
        first.2 = second.2 ↔ first.1.map Frame.displayKey = second.1.map Frame.displayKey) ∧
      (∀ (place : Nat) node, team.tree.nodes.entries[place]? = some node →
        node.caller = .root ∨ ∃ below < place, node.caller = ⟨(below : Nat)⟩) ∧
      (∀ i, (team.workers i).answers.map Prod.fst <+: calls i) ∧
      (team.IsFinished → (∀ i, (team.workers i).answers.map Prod.fst = calls i) ∧
        team.tree.frames.entries.size = (keysOf (keyLists calls)).card ∧
        team.tree.nodes.entries.size = (pathsOf (keyLists calls)).card) ∧
      ∃ more, ((start calls).run (schedule ++ more)).IsFinished := by
  have inv : team.Inv calls := by
    subst reached
    exact inv_run calls schedule fewFrames few
  obtain ⟨more, finished⟩ := exists_run_on team
  rw [← reached, ← run_append] at finished
  refine ⟨fun i answer => inv.answered, ?_, fun place node => caller_cases inv.within,
    inv.answers_prefix, ?_, more, finished⟩
  · intro i j first among second there
    have spells := inv.answered among
    constructor
    · intro same
      rw [same] at spells
      exact spells.unique (inv.answered there)
    · intro same
      rw [same] at spells
      exact spells.injective (inv.answered there)
  · intro done
    exact ⟨fun i => (inv.follows i).finished (done i), inv.complete done⟩

/-- Two workers whose stacks have the root in common, and one more call that is empty. -/
def commonRoot : Fin 2 → List (List Frame)
  | 0 => [[.process "b", .process "a"]]
  | 1 => [[.process "c", .process "a"], []]

/-- The two workers by turns, so that each finds what the other has just added. -/
def closeSchedule : List (Fin 2) := [0, 1, 0, 1, 0, 1, 0, 1, 0, 1, 0, 1, 1, 1]

theorem canonical_of_closeSchedule :
    ((start commonRoot).run closeSchedule).tree.frames.entries.size ≤ 0x100000000 ∧
      ((start commonRoot).run closeSchedule).tree.nodes.entries.size ≤ 0x80000000 ∧
      ((start commonRoot).run closeSchedule).tree.frames.entries.size = 3 ∧
      ((start commonRoot).run closeSchedule).tree.nodes.entries.size = 3 := by
  obtain ⟨frames, nodes⟩ := size_run_le (start commonRoot) closeSchedule
  have fewFrames := Nat.le_trans frames (by decide : _ ≤ 0x100000000)
  have few := Nat.le_trans nodes (by decide : _ ≤ 0x80000000)
  have done : ((start commonRoot).run closeSchedule).IsFinished := by
    intro i
    match i with
    | 0 => exact ⟨rfl, rfl⟩
    | 1 => exact ⟨rfl, rfl⟩
  have keys : (keysOf (keyLists commonRoot)).card = 3 := by decide
  have paths : (pathsOf (keyLists commonRoot)).card = 3 := by decide
  obtain ⟨-, -, -, -, complete, -⟩ :=
    canonical_of_any_schedule commonRoot closeSchedule rfl fewFrames few
  obtain ⟨-, sizeFrames, sizeNodes⟩ := complete done
  exact ⟨fewFrames, few, sizeFrames.trans keys, sizeNodes.trans paths⟩

end Team

end CallTree

end ProfileTrace
