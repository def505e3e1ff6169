import Mathlib.Data.List.Sort
import Mathlib.Logic.Relation
import Mathlib.Order.WellFounded
import ProfileTrace.Proofs.Chunk.Coverage
import ProfileTrace.Proofs.Chunk.Lockstep
import ProfileTrace.Proofs.Pool.Turns

/-! A pool of workers step by step. A worker takes a chunk, works on it and on what all workers
share, and sends its state when no chunk is left or its work has told it to stop. The steps of
different workers may come in any order, and states are sent in the order in which workers come to
their end. Still every chunk that is handed out goes to one worker, and the states come back in the
order of the workers. -/

namespace ProfileTrace

namespace Pool
open Relation (ReflTransGen)

/-- What may come of the work on a chunk, given the shared state and a worker's own. -/
structure Task (σ ω : Type) where
  Does : Chunk → σ → ω → Flow × σ × ω → Prop
  able : ∀ chunk shared state, ∃ result, Does chunk shared state result

def Task.ofJob {σ ω : Type} (job : Job σ ω) : Task σ ω where
  Does chunk shared state result := job chunk shared state = result
  able _ _ _ := ⟨_, rfl⟩

inductive Post where
  | idle
  | holding (chunk : Chunk)
  | leaving
  | gone
  deriving DecidableEq

def Post.after : Flow → Post
  | .goOn => .idle
  | .stop => .leaving

structure Hand (ω : Type) where
  state : ω
  post : Post := .idle
  /-- The chunks that were given to its work, one after the other. -/
  given : List Chunk := []
  /-- Its work has told it to stop. -/
  broke : Bool := false

/-- A pool between two steps. -/
structure Floor (σ ω : Type) where
  feed : Feed
  shared : σ
  hands : List (Hand ω)
  /-- The states that were sent, with the numbers of the workers. -/
  sent : List (Nat × ω) := []

variable {σ ω : Type}

namespace Hand

def work (hand : Hand ω) (chunk : Chunk) (flow : Flow) (state : ω) : Hand ω where
  state := state
  post := .after flow
  given := hand.given ++ [chunk]
  broke := flow = .stop

def taken (hand : Hand ω) : List Chunk :=
  match hand.post with
  | .holding chunk => hand.given ++ [chunk]
  | _ => hand.given

def rank (hand : Hand ω) : Nat :=
  match hand.post with
  | .holding _ => 3
  | .idle => 2
  | .leaving => 1
  | .gone => 0

end Hand

namespace Floor

def start (feed : Feed) (shared : σ) (workers : Nat) (init : Nat → ω) : Floor σ ω where
  feed := feed
  shared := shared
  hands := (List.range (max workers 1)).map fun i => { state := init i }

/-- A step of one worker. -/
inductive Step (task : Task σ ω) : Floor σ ω → Floor σ ω → Prop where
  | take {floor : Floor σ ω} {i : Nat} {hand : Hand ω} {chunk : Chunk} {feed : Feed}
      (found : floor.hands[i]? = some hand) (idle : hand.post = .idle)
      (next : floor.feed.next = (some chunk, feed)) :
      Step task floor { floor with
        feed, hands := floor.hands.set i { hand with post := .holding chunk } }
  | runOut {floor : Floor σ ω} {i : Nat} {hand : Hand ω} {feed : Feed}
      (found : floor.hands[i]? = some hand) (idle : hand.post = .idle)
      (next : floor.feed.next = (none, feed)) :
      Step task floor { floor with
        feed, hands := floor.hands.set i { hand with post := .leaving } }
  | work {floor : Floor σ ω} {i : Nat} {hand : Hand ω} {chunk : Chunk}
      (found : floor.hands[i]? = some hand) (holding : hand.post = .holding chunk) {flow : Flow}
      {shared : σ} {state : ω} (done : task.Does chunk floor.shared hand.state (flow, shared, state)) :
      Step task floor { floor with
        shared, hands := floor.hands.set i (hand.work chunk flow state) }
  | send {floor : Floor σ ω} {i : Nat} {hand : Hand ω}
      (found : floor.hands[i]? = some hand) (leaving : hand.post = .leaving) :
      Step task floor { floor with
        hands := floor.hands.set i { hand with post := .gone }
        sent := floor.sent ++ [(i, hand.state)] }

/-- The states that were sent, in the order of the workers. -/
def collect (floor : Floor σ ω) : List ω :=
  (floor.sent.mergeSort fun a b => decide (a.1 ≤ b.1)).map Prod.snd

def IsFinished (floor : Floor σ ω) : Prop := ∀ hand ∈ floor.hands, hand.post = .gone

variable {task : Task σ ω} {floor after : Floor σ ω}

/-! ### The end is reached -/

/-- The steps that are left: a chunk that is still to be handed out makes for at most two more. -/
def stepsLeft (floor : Floor σ ω) : Nat :=
  2 * floor.feed.remaining + (floor.hands.map Hand.rank).sum

theorem Step.stepsLeft_lt (step : Step task floor after) : after.stepsLeft < floor.stepsLeft := by
  cases step with
  | @take i hand chunk feed found idle next =>
    have less := Feed.remaining_lt_of_next next
    have sum := sum_map_set Hand.rank found { hand with post := .holding chunk }
    simp only [stepsLeft, Hand.rank, idle] at sum ⊢
    omega
  | @runOut i hand feed found idle next =>
    have same := remaining_of_next_none next
    have sum := sum_map_set Hand.rank found { hand with post := .leaving }
    simp only [stepsLeft, Hand.rank, idle] at sum ⊢
    omega
  | @work i hand chunk found holding flow shared state done =>
    have sum := sum_map_set Hand.rank found (hand.work chunk flow state)
    have less : (hand.work chunk flow state).rank ≤ 2 := by
      cases flow <;> simp [Hand.rank, Hand.work, Post.after]
    simp only [stepsLeft, Hand.rank, holding] at sum less ⊢
    omega
  | @send i hand found leaving =>
    have sum := sum_map_set Hand.rank found { hand with post := .gone }
    simp only [stepsLeft, Hand.rank, leaving] at sum ⊢
    omega

theorem wellFounded_step (task : Task σ ω) :
    WellFounded fun after floor : Floor σ ω => Step task floor after :=
  Subrelation.wf (fun step => step.stepsLeft_lt) (measure stepsLeft).wf

theorem exists_step (task : Task σ ω) (unfinished : ¬floor.IsFinished) :
    ∃ after, Step task floor after := by
  simp only [IsFinished, not_forall] at unfinished
  obtain ⟨hand, among, here⟩ := unfinished
  obtain ⟨i, found⟩ := List.mem_iff_getElem?.mp among
  cases post : hand.post with
  | idle =>
    rcases next : floor.feed.next with ⟨_ | chunk, feed⟩
    · exact ⟨_, .runOut found post next⟩
    · exact ⟨_, .take found post next⟩
  | holding chunk =>
    obtain ⟨⟨flow, shared, state⟩, done⟩ := task.able chunk floor.shared hand.state
    exact ⟨_, .work found post done⟩
  | leaving => exact ⟨_, .send found post⟩
  | gone => exact absurd post here

theorem exists_finished (task : Task σ ω) (floor : Floor σ ω) :
    ∃ after, ReflTransGen (Step task) floor after ∧ after.IsFinished := by
  induction floor using (wellFounded_step task).induction with
  | _ floor ih =>
    by_cases done : floor.IsFinished
    · exact ⟨floor, .refl, done⟩
    · obtain ⟨next, step⟩ := exists_step task done
      obtain ⟨after, steps, finished⟩ := ih next step
      exact ⟨after, .head step steps, finished⟩

/-! ### The chunks that were handed out -/

theorem flatMap_set_perm {α β : Type} {f : α → List β} {all : List α} {i : Nat} {old new : α}
    (found : all[i]? = some old) {more : List β} (grown : f new = f old ++ more) :
    ((all.set i new).flatMap f).Perm (all.flatMap f ++ more) := by
  induction all generalizing i with
  | nil => simp at found
  | cons first others ih =>
    cases i with
    | zero =>
      obtain rfl : first = old := by simpa using found
      rw [List.set_cons_zero, List.flatMap_cons, List.flatMap_cons, grown, List.append_assoc,
        List.append_assoc]
      exact List.perm_append_comm.append_left _
    | succ i =>
      rw [List.set_cons_succ, List.flatMap_cons, List.flatMap_cons, List.append_assoc]
      exact (ih (by simpa using found)).append_left _

/-- How the chunks of a trace are spread over the workers, when so many of them were handed out. -/
structure Spread (chunks : List Chunk) (floor : Floor σ ω) (count : Nat) : Prop where
  roomy : floor.feed.cursor.Roomy
  inside : count ≤ chunks.length
  left : floor.feed.chunks.1 = chunks.drop count
  taken : (floor.hands.flatMap Hand.taken).Perm (chunks.take count)
  each : ∀ hand ∈ floor.hands, hand.taken.Sublist (chunks.take count)
  isOver : ∀ hand ∈ floor.hands, hand.post = .leaving ∨ hand.post = .gone →
    hand.broke = true ∨ floor.feed.next.1 = none

variable {chunks : List Chunk} {count i : Nat} {hand new : Hand ω}

theorem Spread.set (spread : Spread chunks floor count) (found : floor.hands[i]? = some hand)
    (same : new.taken = hand.taken)
    (isOver : new.post = .leaving ∨ new.post = .gone → new.broke = true ∨ floor.feed.next.1 = none)
    (shared : σ) (sent : List (Nat × ω)) :
    Spread chunks ⟨floor.feed, shared, floor.hands.set i new, sent⟩ count := by
  have old := spread.each hand (List.mem_of_getElem? found)
  refine ⟨spread.roomy, spread.inside, spread.left, ?_, ?_, ?_⟩
  · have grown : new.taken = hand.taken ++ [] := by rw [same, List.append_nil]
    have all := flatMap_set_perm found grown
    rw [List.append_nil] at all
    exact all.trans spread.taken
  · intro other among
    rcases List.mem_or_eq_of_mem_set among with there | rfl
    · exact spread.each other there
    · rwa [same]
  · intro other among
    rcases List.mem_or_eq_of_mem_set among with there | rfl
    · exact spread.isOver other there
    · exact isOver

theorem Spread.take (spread : Spread chunks floor count) (found : floor.hands[i]? = some hand)
    (idle : hand.post = .idle) {chunk : Chunk} {feed : Feed}
    (next : floor.feed.next = (some chunk, feed)) :
    Spread chunks
      ⟨feed, floor.shared, floor.hands.set i { hand with post := .holding chunk }, floor.sent⟩
      (count + 1) := by
  have left := spread.left
  rw [Feed.chunks_some next] at left
  have inside : count < chunks.length := by
    by_contra beyond
    rw [List.drop_eq_nil_of_le (Nat.le_of_not_lt beyond)] at left
    cases left
  rw [List.drop_eq_getElem_cons inside, List.cons.injEq] at left
  obtain ⟨rfl, left⟩ := left
  have more : chunks.take (count + 1) = chunks.take count ++ [chunks[count]] :=
    List.take_succ_eq_append_getElem inside
  have old : hand.taken = hand.given := by rw [Hand.taken, idle]
  have grown : Hand.taken { hand with post := .holding chunks[count] } =
      hand.taken ++ [chunks[count]] := by
    rw [old]
    rfl
  refine ⟨?_, inside, left, ?_, ?_, ?_⟩
  · have roomy := Feed.holds_next StreamCursor.enduring_roomy spread.roomy
    rwa [next] at roomy
  · rw [more]
    exact (flatMap_set_perm found grown).trans (spread.taken.append_right _)
  · intro other among
    rw [more]
    rcases List.mem_or_eq_of_mem_set among with there | rfl
    · exact (spread.each other there).trans (List.sublist_append_left _ _)
    · rw [grown]
      exact (spread.each hand (List.mem_of_getElem? found)).append_right _
  · intro other among ended
    rcases List.mem_or_eq_of_mem_set among with there | rfl
    · rcases spread.isOver other there ended with broke | none
      · exact .inl broke
      · rw [next] at none
        cases none
    · simp at ended

theorem Spread.runOut (spread : Spread chunks floor count) (found : floor.hands[i]? = some hand)
    (idle : hand.post = .idle) {feed : Feed} (next : floor.feed.next = (none, feed)) :
    Spread chunks ⟨feed, floor.shared, floor.hands.set i { hand with post := .leaving }, floor.sent⟩
      count := by
  have nothing := Feed.next_of_exhausted spread.roomy (congrArg Prod.fst next)
  rw [next] at nothing
  have left := spread.left
  rw [Feed.chunks_none next] at left
  have same : Hand.taken { hand with post := .leaving } = hand.taken := by
    rw [Hand.taken, Hand.taken, idle]
  have moved : Spread chunks
      ⟨floor.feed, floor.shared, floor.hands.set i { hand with post := .leaving }, floor.sent⟩
      count :=
    spread.set found same (fun _ => .inr (congrArg Prod.fst next)) _ _
  refine ⟨?_, moved.inside, ?_, moved.taken, moved.each, ?_⟩
  · have roomy := Feed.holds_next StreamCursor.enduring_roomy spread.roomy
    rwa [next] at roomy
  · rw [Feed.chunks_none nothing]
    exact left
  · exact fun _ _ _ => .inr (congrArg Prod.fst nothing)

theorem Spread.step (spread : Spread chunks floor count) (step : Step task floor after) :
    ∃ count, Spread chunks after count := by
  cases step with
  | take found idle next => exact ⟨count + 1, spread.take found idle next⟩
  | runOut found idle next => exact ⟨count, spread.runOut found idle next⟩
  | @work i hand chunk found holding flow shared state done =>
    refine ⟨count, spread.set found ?_ ?_ _ _⟩
    · rw [Hand.taken, Hand.taken, holding]
      cases flow <;> rfl
    · intro ended
      cases flow with
      | goOn => simp [Hand.work, Post.after] at ended
      | stop => exact .inl rfl
  | @send i hand found leaving =>
    refine ⟨count, spread.set found ?_ ?_ _ _⟩
    · rw [Hand.taken, Hand.taken, leaving]
    · exact fun _ => spread.isOver hand (List.mem_of_getElem? found) (.inl leaving)

/-! ### The states that were sent -/

/-- Each worker that is gone has sent its state, and just once. -/
structure Posted (floor : Floor σ ω) : Prop where
  once : (floor.sent.map Prod.fst).Nodup
  mem : ∀ i state, (i, state) ∈ floor.sent ↔
    ∃ hand, floor.hands[i]? = some hand ∧ hand.post = .gone ∧ hand.state = state

theorem Posted.set (posted : Posted floor) (found : floor.hands[i]? = some hand)
    (here : hand.post ≠ .gone) (still : new.post ≠ .gone) (feed : Feed) (shared : σ) :
    Posted ⟨feed, shared, floor.hands.set i new, floor.sent⟩ where
  once := posted.once
  mem j state := by
    rw [posted.mem j state, List.getElem?_set]
    by_cases own : i = j
    · subst own
      have inside := (List.getElem?_eq_some_iff.mp found).1
      simp only [found, Option.some.injEq, inside, if_true]
      constructor
      · rintro ⟨_, rfl, gone, -⟩
        exact absurd gone here
      · rintro ⟨_, rfl, gone, -⟩
        exact absurd gone still
    · rw [if_neg own]

theorem Posted.send (posted : Posted floor) (found : floor.hands[i]? = some hand)
    (here : hand.post ≠ .gone) :
    Posted ⟨floor.feed, floor.shared, floor.hands.set i { hand with post := .gone },
      floor.sent ++ [(i, hand.state)]⟩ where
  once := by
    rw [List.map_append, List.map_singleton]
    refine List.Nodup.append posted.once (List.nodup_singleton i) ?_
    rw [List.disjoint_singleton]
    intro among
    obtain ⟨⟨j, state⟩, sent, rfl⟩ := List.mem_map.mp among
    obtain ⟨other, there, gone, -⟩ := (posted.mem j state).mp sent
    rw [found, Option.some.injEq] at there
    exact here (there ▸ gone)
  mem j state := by
    have inside := (List.getElem?_eq_some_iff.mp found).1
    rw [List.mem_append, List.mem_singleton, posted.mem j state, List.getElem?_set]
    by_cases own : i = j
    · subst own
      simp only [found, Option.some.injEq, inside, if_true, Prod.mk.injEq, true_and]
      constructor
      · rintro (⟨_, rfl, gone, -⟩ | rfl)
        · exact absurd gone here
        · exact ⟨_, rfl, rfl, rfl⟩
      · rintro ⟨_, rfl, -, rfl⟩
        exact .inr rfl
    · rw [if_neg own]
      simp only [Prod.mk.injEq, Ne.symm own, false_and, or_false]

theorem Posted.step (posted : Posted floor) (step : Step task floor after) : Posted after := by
  cases step with
  | take found idle next => exact posted.set found (by simp [idle]) (by simp) _ _
  | runOut found idle next => exact posted.set found (by simp [idle]) (by simp) _ _
  | @work i hand chunk found holding flow shared state done =>
    refine posted.set found (by simp [holding]) ?_ _ _
    cases flow <;> simp [Hand.work, Post.after]
  | send found leaving => exact posted.send found (by simp [leaving])

def ordered (floor : Floor σ ω) : List (Nat × ω) := floor.hands.mapIdx fun i hand => (i, hand.state)

theorem mem_ordered {i : Nat} {state : ω} :
    (i, state) ∈ floor.ordered ↔ ∃ hand, floor.hands[i]? = some hand ∧ hand.state = state := by
  unfold ordered
  rw [List.mem_mapIdx]
  constructor
  · rintro ⟨j, inside, same⟩
    rw [Prod.mk.injEq] at same
    obtain ⟨rfl, rfl⟩ := same
    exact ⟨floor.hands[j], List.getElem?_eq_getElem inside, rfl⟩
  · rintro ⟨hand, found, rfl⟩
    obtain ⟨inside, rfl⟩ := List.getElem?_eq_some_iff.mp found
    exact ⟨i, inside, rfl⟩

theorem ordered_pairwise (floor : Floor σ ω) : floor.ordered.Pairwise fun a b => a.1 < b.1 := by
  unfold ordered
  rw [List.pairwise_iff_getElem]
  intro i j _ _ before
  rw [List.getElem_mapIdx, List.getElem_mapIdx]
  exact before

theorem map_snd_ordered (floor : Floor σ ω) :
    floor.ordered.map Prod.snd = floor.hands.map Hand.state := by
  apply List.ext_getElem
  · simp [ordered]
  · simp [ordered]

/-- When all workers are gone, sorting brings their states back into their order. -/
theorem Posted.collect_eq (posted : Posted floor) (done : floor.IsFinished) :
    floor.collect = floor.hands.map Hand.state := by
  have ascending : floor.ordered.Pairwise fun a b => decide (a.1 ≤ b.1) = true :=
    floor.ordered_pairwise.imp fun before => decide_eq_true (Nat.le_of_lt before)
  have sorted : (floor.sent.mergeSort fun a b => decide (a.1 ≤ b.1)).Pairwise
      fun a b => decide (a.1 ≤ b.1) = true := by
    apply List.pairwise_mergeSort
    · simp only [decide_eq_true_eq]
      omega
    · simp only [Bool.or_eq_true, decide_eq_true_eq]
      omega
  have distinct : floor.ordered.Nodup :=
    floor.ordered_pairwise.imp fun before same => by simp [same] at before
  have same : (floor.sent.mergeSort fun a b => decide (a.1 ≤ b.1)).Perm floor.ordered := by
    apply (List.mergeSort_perm _ _).trans
    rw [List.perm_ext_iff_of_nodup (List.Nodup.of_map Prod.fst posted.once) distinct]
    rintro ⟨i, state⟩
    rw [posted.mem, mem_ordered]
    constructor
    · rintro ⟨hand, found, -, own⟩
      exact ⟨hand, found, own⟩
    · rintro ⟨hand, found, own⟩
      exact ⟨hand, found, done hand (List.mem_of_getElem? found), own⟩
  have unique : ∀ a b, a ∈ floor.sent.mergeSort (fun a b => decide (a.1 ≤ b.1)) →
      b ∈ floor.ordered → decide (a.1 ≤ b.1) = true → decide (b.1 ≤ a.1) = true → a = b := by
    rintro ⟨i, state⟩ ⟨j, other⟩ among there le ge
    simp only [decide_eq_true_eq] at le ge
    obtain rfl := Nat.le_antisymm le ge
    obtain ⟨hand, found, rfl⟩ := mem_ordered.mp (same.subset among)
    obtain ⟨another, also, rfl⟩ := mem_ordered.mp there
    rw [found, Option.some.injEq] at also
    rw [also]
  rw [collect, List.Perm.eq_of_pairwise unique sorted ascending same, map_snd_ordered]

/-! ### All steps -/

structure Inv (chunks : List Chunk) (workers : Nat) (floor : Floor σ ω) : Prop where
  length : floor.hands.length = workers
  posted : Posted floor
  spread : ∃ count, Spread chunks floor count

theorem Inv.step {workers : Nat} (inv : Inv chunks workers floor) (step : Step task floor after) :
    Inv chunks workers after := by
  obtain ⟨length, posted, count, spread⟩ := inv
  refine ⟨?_, posted.step step, spread.step step⟩
  cases step <;> rwa [List.length_set]

theorem inv_start (reader : Reader) (windowLength : Nat) (shared : σ) (workers : Nat)
    (init : Nat → ω) :
    Inv (Feed.ofReader reader windowLength).chunks.1 (max workers 1)
      (start (Feed.ofReader reader windowLength) shared workers init) := by
  have fresh : ∀ hand ∈ (start (Feed.ofReader reader windowLength) shared workers init).hands,
      hand.post = .idle ∧ hand.given = [] := by
    intro hand among
    obtain ⟨i, -, rfl⟩ := List.mem_map.mp among
    exact ⟨rfl, rfl⟩
  have none : ∀ hand ∈ (start (Feed.ofReader reader windowLength) shared workers init).hands,
      hand.taken = [] := by
    intro hand among
    obtain ⟨idle, nothing⟩ := fresh hand among
    rw [Hand.taken, idle, nothing]
  refine ⟨by simp [start], ⟨List.nodup_nil, ?_⟩, 0, ?_, Nat.zero_le _, rfl, ?_, ?_, ?_⟩
  · intro i state
    constructor
    · intro sent
      cases sent
    · rintro ⟨hand, found, gone, -⟩
      rw [(fresh hand (List.mem_of_getElem? found)).1] at gone
      cases gone
  · exact StreamCursor.roomy_ofReader reader _ 0
  · rw [List.flatMap_eq_nil_iff.mpr none, List.take_zero]
  · intro hand among
    rw [none hand among]
    exact List.nil_sublist _
  · intro hand among ended
    rw [(fresh hand among).1] at ended
    simp at ended

theorem Inv.steps {workers : Nat} (inv : Inv chunks workers floor)
    (steps : ReflTransGen (Step task) floor after) : Inv chunks workers after := by
  induction steps with
  | refl => exact inv
  | tail _ step ih => exact ih.step step

theorem pairwise_index (feed : Feed) :
    feed.chunks.1.Pairwise fun a b => a.index < b.index := by
  rw [List.pairwise_iff_getElem]
  intro i j inside within before
  rw [feed.gives_chunks.index_getElem inside, feed.gives_chunks.index_getElem within]
  exact Nat.add_lt_add_left before _

theorem map_index_ofReader (reader : Reader) (windowLength : Nat) :
    (Feed.ofReader reader windowLength).chunks.1.map Chunk.index =
      List.range (Feed.ofReader reader windowLength).chunks.1.length := by
  apply List.ext_getElem
  · simp
  · intro i inside _
    rw [List.length_map] at inside
    rw [List.getElem_map, List.getElem_range,
      (Feed.ofReader reader windowLength).gives_chunks.index_getElem inside]
    exact Nat.zero_add i

/-! ### The turns of a pool -/

end Floor

def Hand.worker (hand : Hand ω) : Worker ω := { state := hand.state, working := hand.post = .idle }

/-- Each worker of the pool is about to take a chunk, or to leave when it does not work any more. -/
structure Mans (pool : Pool σ ω) (floor : Floor σ ω) : Prop where
  feed : floor.feed = pool.feed
  shared : floor.shared = pool.shared
  workers : pool.workers = floor.hands.map Hand.worker
  rested : ∀ hand ∈ floor.hands, hand.post = .idle ∨ hand.post = .leaving

variable {pool : Pool σ ω} {floor : Floor σ ω} {job : Job σ ω}

theorem Mans.set (mans : Mans pool floor) (hand : Hand ω) (i : Nat) (feed : Feed) (shared : σ)
    (sent : List (Nat × ω)) (rest : hand.post = .idle ∨ hand.post = .leaving) :
    Mans ⟨feed, shared, pool.workers.set i hand.worker⟩
      ⟨feed, shared, floor.hands.set i hand, sent⟩ where
  feed := rfl
  shared := rfl
  workers := by rw [mans.workers, List.map_set]
  rested := by
    intro other among
    rcases List.mem_or_eq_of_mem_set among with there | rfl
    · exact mans.rested other there
    · exact rest

/-- A turn of a worker is two steps, to take a chunk and to do the job on it, or one. -/
theorem Mans.turn (mans : Mans pool floor) (job : Job σ ω) (i : Nat) :
    ∃ after, ReflTransGen (Floor.Step (.ofJob job)) floor after ∧ Mans (turn job i pool) after := by
  have found : pool.workers[i]? = (floor.hands[i]?).map Hand.worker := by
    rw [mans.workers, List.getElem?_map]
  cases here : floor.hands[i]? with
  | none =>
    rw [here, Option.map_none] at found
    refine ⟨floor, .refl, ?_⟩
    rwa [Pool.turn, found]
  | some hand =>
    rw [here, Option.map_some] at found
    rcases mans.rested hand (List.mem_of_getElem? here) with idle | leaving
    · have worker : hand.worker = { state := hand.state, working := true } := by
        simp [Hand.worker, idle]
      rw [worker] at found
      rcases next : floor.feed.next with ⟨_ | chunk, feed⟩
      · have also : pool.feed.next = (none, feed) := mans.feed ▸ next
        refine ⟨_, .single (.runOut here idle next), ?_⟩
        simp only [Pool.turn, found, also, mans.shared]
        exact mans.set { hand with post := .leaving } i feed _ _ (.inr rfl)
      · have also : pool.feed.next = (some chunk, feed) := mans.feed ▸ next
        rcases done : job chunk pool.shared hand.state with ⟨flow, shared, state⟩
        have inside := (List.getElem?_eq_some_iff.mp here).1
        have does : job chunk floor.shared hand.state = (flow, shared, state) := mans.shared ▸ done
        have taken : Floor.Step (.ofJob job) floor _ := .take here idle next
        have worked : Floor.Step (.ofJob job) ⟨feed, floor.shared,
            floor.hands.set i { hand with post := .holding chunk }, floor.sent⟩ _ :=
          @Floor.Step.work _ _ _ _ i { hand with post := .holding chunk } chunk
            (List.getElem?_set_self inside) rfl flow shared state does
        refine ⟨_, .tail (.single taken) worked, ?_⟩
        simp only [Pool.turn, found, also, done, List.set_set]
        have rest : Post.after flow = .idle ∨ Post.after flow = .leaving := by
          cases flow with
          | goOn => exact .inl rfl
          | stop => exact .inr rfl
        have moved := mans.set (Hand.work { hand with post := .holding chunk } chunk flow state) i
          feed shared floor.sent rest
        have same : Hand.worker (Hand.work { hand with post := .holding chunk } chunk flow state) =
            { state, working := flow = .goOn } := by
          cases flow <;> rfl
        rwa [same] at moved
    · have worker : hand.worker = { state := hand.state, working := false } := by
        simp [Hand.worker, leaving]
      rw [worker] at found
      refine ⟨floor, .refl, ?_⟩
      rwa [Pool.turn, found]

theorem Mans.runWorker (mans : Mans pool floor) (job : Job σ ω) (i : Nat) :
    ∃ after, ReflTransGen (Floor.Step (.ofJob job)) floor after ∧ Mans (runWorker job i pool) after := by
  fun_induction Pool.runWorker job i pool generalizing floor with
  | case1 pool busy ih =>
    obtain ⟨next, first, turned⟩ := mans.turn job i
    obtain ⟨after, others, last⟩ := ih turned
    exact ⟨after, first.trans others, last⟩
  | case2 pool idle => exact ⟨floor, .refl, mans⟩

theorem Mans.run (mans : Mans pool floor) (job : Job σ ω) (order : List Nat) :
    ∃ after, ReflTransGen (Floor.Step (.ofJob job)) floor after ∧
      Mans (order.foldl (fun pool i => Pool.runWorker job i pool) pool) after := by
  induction order generalizing pool floor with
  | nil => exact ⟨floor, .refl, mans⟩
  | cons i order ih =>
    obtain ⟨next, first, turned⟩ := mans.runWorker job i
    obtain ⟨after, others, last⟩ := ih turned
    exact ⟨after, first.trans others, last⟩

theorem Floor.steps_of_leaving {task : Task σ ω} {after : Floor σ ω}
    (ended : ∀ hand ∈ floor.hands, hand.post = .leaving ∨ hand.post = .gone)
    (steps : ReflTransGen (Floor.Step task) floor after) :
    after.feed = floor.feed ∧ after.shared = floor.shared ∧
      after.hands.map Hand.state = floor.hands.map Hand.state := by
  have kept : after.feed = floor.feed ∧ after.shared = floor.shared ∧
      after.hands.map Hand.state = floor.hands.map Hand.state ∧
      ∀ hand ∈ after.hands, hand.post = .leaving ∨ hand.post = .gone := by
    induction steps with
    | refl => exact ⟨rfl, rfl, rfl, ended⟩
    | @tail middle last _ step ih =>
      obtain ⟨feed, shared, states, posts⟩ := ih
      cases step with
      | take found idle next =>
        have post := posts _ (List.mem_of_getElem? found)
        simp [idle] at post
      | runOut found idle next =>
        have post := posts _ (List.mem_of_getElem? found)
        simp [idle] at post
      | work found holding does =>
        have post := posts _ (List.mem_of_getElem? found)
        simp [holding] at post
      | @send i hand found leaving =>
        refine ⟨feed, shared, ?_, ?_⟩
        · obtain ⟨inside, rfl⟩ := List.getElem?_eq_some_iff.mp found
          have same : (middle.hands.set i { middle.hands[i] with post := .gone }).map Hand.state =
              (middle.hands.set i middle.hands[i]).map Hand.state := by
            rw [List.map_set, List.map_set]
          rw [same, List.set_getElem_self, states]
        · intro other among
          rcases List.mem_or_eq_of_mem_set among with there | rfl
          · exact posts other there
          · exact .inr rfl
  exact ⟨kept.1, kept.2.1, kept.2.2.1⟩

/-- The run of a pool is one of the orders of steps in which the workers do its job. -/
theorem exists_steps_run (feed : Feed) (shared : σ) (workers : Nat) (init : Nat → ω)
    (job : Job σ ω) :
    ∃ floor, ReflTransGen (Floor.Step (.ofJob job)) (Floor.start feed shared workers init) floor ∧
      floor.IsFinished ∧
      floor.feed = (run job (start feed shared workers init)).feed ∧
      floor.shared = (run job (start feed shared workers init)).shared ∧
      floor.hands.map Hand.state = (run job (start feed shared workers init)).states := by
  have mans : Mans (start feed shared workers init) (Floor.start feed shared workers init) := by
    refine ⟨rfl, rfl, ?_, ?_⟩
    · simp [start, Floor.start, Hand.worker]
    · intro hand among
      obtain ⟨i, -, rfl⟩ := List.mem_map.mp among
      exact .inl rfl
  obtain ⟨rested, steps, stopped⟩ := mans.run job
    (List.range (start feed shared workers init).workers.length)
  have leaving : ∀ hand ∈ rested.hands, hand.post = .leaving ∨ hand.post = .gone := by
    intro hand among
    rcases stopped.rested hand among with idle | leaving
    · obtain ⟨i, found⟩ := List.mem_iff_getElem?.mp among
      have still := isWorking_run job (start feed shared workers init) i
      have same : (run job (start feed shared workers init)).workers = rested.hands.map Hand.worker :=
        stopped.workers
      rw [isWorking, same, List.getElem?_map, found] at still
      simp [Hand.worker, idle] at still
    · exact .inl leaving
  obtain ⟨floor, others, done⟩ := Floor.exists_finished (.ofJob job) rested
  obtain ⟨left, both, states⟩ := Floor.steps_of_leaving leaving others
  refine ⟨floor, steps.trans others, done, left.trans stopped.feed, both.trans stopped.shared, ?_⟩
  have same : (run job (start feed shared workers init)).workers = rested.hands.map Hand.worker :=
    stopped.workers
  rw [states, Pool.states, same, List.map_map]
  rfl

/-- Every chunk is handed out once, whatever the workers make of it and in whatever order they take
their steps. They come to an end, and can until then always go on. At the end there is one state
for each of them, in their order; the chunks given to their work are the first so many of all, each
of them to one worker and to each worker in their order; the trace goes on with the next one; and
there is none when a worker was not told to stop. When the work is a job that leaves nothing open,
the run of a pool is one of these, in which each chunk that is given has the job done on it: with
what is left, what is shared and the states that the steps of that order come to. -/
theorem handed_out_once (task : Task σ ω) (reader : Reader) (windowLength : Nat) (shared : σ)
    (workers : Nat) (init : Nat → ω) :
    (WellFounded fun after floor : Floor σ ω => Floor.Step task floor after) ∧
      ((Feed.ofReader reader windowLength).chunks.1.map Chunk.index =
        List.range (Feed.ofReader reader windowLength).chunks.1.length) ∧
      (∀ floor, ReflTransGen (Floor.Step task)
          (Floor.start (Feed.ofReader reader windowLength) shared workers init) floor →
        (¬floor.IsFinished → ∃ after, Floor.Step task floor after) ∧
        (floor.IsFinished →
          floor.collect = floor.hands.map Hand.state ∧ floor.collect.length = max workers 1 ∧
          ∃ count ≤ (Feed.ofReader reader windowLength).chunks.1.length,
            (floor.hands.flatMap Hand.given).Perm
              ((Feed.ofReader reader windowLength).chunks.1.take count) ∧
            (∀ hand ∈ floor.hands, hand.given.Pairwise fun a b => a.index < b.index) ∧
            floor.feed.next.1 = (Feed.ofReader reader windowLength).chunks.1[count]? ∧
            floor.feed.chunks.1 = (Feed.ofReader reader windowLength).chunks.1.drop count ∧
            ((∃ hand ∈ floor.hands, hand.broke = false) →
              count = (Feed.ofReader reader windowLength).chunks.1.length))) ∧
      ∀ job : Job σ ω, ∃ floor,
        ReflTransGen (Floor.Step (.ofJob job))
          (Floor.start (Feed.ofReader reader windowLength) shared workers init) floor ∧
        floor.IsFinished ∧
        floor.feed =
          (run job (start (Feed.ofReader reader windowLength) shared workers init)).feed ∧
        floor.shared =
          (run job (start (Feed.ofReader reader windowLength) shared workers init)).shared ∧
        floor.collect =
          (run job (start (Feed.ofReader reader windowLength) shared workers init)).states := by
  have inv : ∀ (task : Task σ ω) floor, ReflTransGen (Floor.Step task)
      (Floor.start (Feed.ofReader reader windowLength) shared workers init) floor →
      Floor.Inv (Feed.ofReader reader windowLength).chunks.1 (max workers 1) floor :=
    fun _ _ steps => (Floor.inv_start reader windowLength shared workers init).steps steps
  refine ⟨Floor.wellFounded_step task, Floor.map_index_ofReader reader windowLength, ?_, ?_⟩
  · intro floor steps
    refine ⟨Floor.exists_step task, ?_⟩
    intro done
    obtain ⟨length, posted, count, spread⟩ := inv task floor steps
    have given : ∀ hand ∈ floor.hands, hand.taken = hand.given := by
      intro hand among
      rw [Hand.taken, done hand among]
    have all : floor.hands.flatMap Hand.taken = floor.hands.flatMap Hand.given :=
      List.flatMap_congr given
    have collected := posted.collect_eq done
    refine ⟨collected, ?_, count, spread.inside, all ▸ spread.taken, ?_, ?_, spread.left, ?_⟩
    · rw [collected, List.length_map, length]
    · intro hand among
      rw [← given hand among]
      exact ((Floor.pairwise_index _).sublist (List.take_sublist _ _)).sublist
        (spread.each hand among)
    · rw [Feed.fst_next, spread.left, List.head?_drop]
    · rintro ⟨hand, among, goingOn⟩
      rcases spread.isOver hand among (.inr (done hand among)) with broke | none
      · rw [broke] at goingOn
        cases goingOn
      · rw [Feed.fst_next, List.head?_eq_none_iff, spread.left, List.drop_eq_nil_iff] at none
        exact Nat.le_antisymm spread.inside none
  · intro job
    obtain ⟨floor, steps, done, feed, both, states⟩ :=
      exists_steps_run (Feed.ofReader reader windowLength) shared workers init job
    exact ⟨floor, steps, done, feed, both,
      ((inv (.ofJob job) floor steps).posted.collect_eq done).trans states⟩

end Pool

end ProfileTrace
