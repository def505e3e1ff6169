import Mathlib.Data.List.Basic
import ProfileTrace.Blocked

/-! The times in which one thread is blocked, told from the events alone. An event may unblock
the thread or block it, the first before the second; it is blocked from each event that finds it
running up to the next one that unblocks it. -/

namespace ProfileTrace

namespace Event

/-- The switch that an event of the scheduler tells of. -/
def handover? (event : Event) : Option Switch :=
  match event.kind with
  | .scheduler => event.switch
  | .cpu => none

def blocks (tid : Int) (event : Event) : Bool :=
  event.handover?.any (·.previousTid = tid)

def lastThread? (cpu : Int) (events : List Event) : Option Int :=
  (events.filter (·.cpu = cpu)).getLast?.map (·.tid)

/-- How an event unblocks a thread, if it does, given the events before it: by a switch to the
thread, or by anything else on the processor where that thread was seen last. -/
def unblocks? (earlier : List Event) (tid : Int) (event : Event) : Option PeriodEnd :=
  match event.handover? with
  | some switch => if switch.nextTid = tid then some .explicit else none
  | none =>
      if isPresent event.cpu ∧ event.tid ≠ tid ∧ lastThread? event.cpu earlier = some tid then
        some .induced
      else none

end Event

/-! ### Beginnings and ends -/

namespace Intervals
variable (events : List Event) (tid : Int)

def timeAt (i : Nat) : Seconds := (events[i]?.map (·.time)).getD .zero

def blocksAt (i : Nat) : Bool := events[i]?.any (·.blocks tid)

def unblocksAt? (i : Nat) : Option PeriodEnd :=
  events[i]?.bind (·.unblocks? (events.take i) tid)

/-- After the first `count` events the thread is blocked: one of them blocks it, and none after
that unblocks it. -/
def IsBlocked (count : Nat) : Prop :=
  ∃ i < count, blocksAt events tid i = true ∧ ∀ j < count, i < j → unblocksAt? events tid j = none

/-- The event takes the thread from running to blocked. It may have unblocked the thread itself. -/
def Begins (i : Nat) : Prop :=
  blocksAt events tid i = true ∧ (IsBlocked events tid i → unblocksAt? events tid i ≠ none)

/-- The event takes the thread from blocked to running. -/
def Ends (i : Nat) : Prop :=
  IsBlocked events tid i ∧ unblocksAt? events tid i ≠ none

instance (count : Nat) : Decidable (IsBlocked events tid count) :=
  inferInstanceAs (Decidable (∃ i < count, _ = true ∧ ∀ j < count, i < j → _ = none))

instance (i : Nat) : Decidable (Begins events tid i) :=
  inferInstanceAs (Decidable (_ = true ∧ (IsBlocked events tid i → _ ≠ none)))

def beginnings : List Nat := (List.range events.length).filter fun i => Begins events tid i

def finish? (i : Nat) : Option (Seconds × PeriodEnd) :=
  ((List.range events.length).filterMap fun j =>
    if i < j then (unblocksAt? events tid j).map (timeAt events j, ·) else none).head?

def latestTime : List Event → Seconds
  | [] => .zero
  | event :: others => others.foldl (fun time event => time.latest event.time) event.time

/-- The period that begins with the event of this number. It ends with the first later event that
unblocks the thread, or else with the latest time. -/
def period (i : Nat) : BlockedPeriod :=
  match finish? events tid i with
  | some (finish, reason) => { tid, start := timeAt events i, finish, reason }
  | none => { tid, start := timeAt events i, finish := latestTime events, reason := .flushed }

/-! ### One more event -/

variable {events : List Event} {tid : Int} {i : Nat}

theorem timeAt_append (inside : i < events.length) (more : List Event) :
    timeAt (events ++ more) i = timeAt events i := by
  rw [timeAt, List.getElem?_append_left inside, timeAt]

theorem timeAt_length (event : Event) : timeAt (events ++ [event]) events.length = event.time := by
  simp [timeAt]

theorem blocksAt_append (inside : i < events.length) (more : List Event) :
    blocksAt (events ++ more) tid i = blocksAt events tid i := by
  rw [blocksAt, List.getElem?_append_left inside, blocksAt]

theorem blocksAt_length (event : Event) :
    blocksAt (events ++ [event]) tid events.length = event.blocks tid := by
  simp [blocksAt]

theorem unblocksAt?_append (inside : i < events.length) (more : List Event) :
    unblocksAt? (events ++ more) tid i = unblocksAt? events tid i := by
  rw [unblocksAt?, List.getElem?_append_left inside,
    List.take_append_of_le_length (Nat.le_of_lt inside), unblocksAt?]

theorem unblocksAt?_length (event : Event) :
    unblocksAt? (events ++ [event]) tid events.length = event.unblocks? events tid := by
  simp [unblocksAt?]

theorem isBlocked_append {count : Nat} (inside : count ≤ events.length) (more : List Event) :
    IsBlocked (events ++ more) tid count ↔ IsBlocked events tid count := by
  have same : ∀ j < count, blocksAt (events ++ more) tid j = blocksAt events tid j ∧
      unblocksAt? (events ++ more) tid j = unblocksAt? events tid j := fun j before =>
    have within := Nat.lt_of_lt_of_le before inside
    ⟨blocksAt_append within more, unblocksAt?_append within more⟩
  constructor
  · rintro ⟨i, before, blocks, after⟩
    refine ⟨i, before, (same i before).1 ▸ blocks, ?_⟩
    intro j within later
    rw [← (same j within).2, after j within later]
  · rintro ⟨i, before, blocks, after⟩
    refine ⟨i, before, (same i before).1.trans blocks, ?_⟩
    intro j within later
    rw [(same j within).2, after j within later]

theorem begins_append (inside : i < events.length) (more : List Event) :
    Begins (events ++ more) tid i ↔ Begins events tid i := by
  unfold Begins
  rw [blocksAt_append inside, isBlocked_append (Nat.le_of_lt inside), unblocksAt?_append inside]

theorem begins_length (event : Event) :
    Begins (events ++ [event]) tid events.length ↔ event.blocks tid = true ∧
      (IsBlocked events tid events.length → event.unblocks? events tid ≠ none) := by
  unfold Begins
  rw [blocksAt_length, isBlocked_append (Nat.le_refl _), unblocksAt?_length]

theorem beginnings_concat (event : Event) :
    beginnings (events ++ [event]) tid = beginnings events tid ++
      if Begins (events ++ [event]) tid events.length then [events.length] else [] := by
  have before : (List.range events.length).filter (fun i => Begins (events ++ [event]) tid i) =
      beginnings events tid := by
    apply List.filter_congr
    intro i inside
    rw [decide_eq_decide]
    exact begins_append (List.mem_range.mp inside) _
  rw [beginnings, List.length_append, List.length_singleton, List.range_succ, List.filter_append,
    before, List.filter_cons, List.filter_nil]
  simp only [decide_eq_true_eq]

theorem finish?_eq_none_iff :
    finish? events tid i = none ↔ ∀ j < events.length, i < j → unblocksAt? events tid j = none := by
  rw [finish?, List.head?_eq_none_iff, List.filterMap_eq_nil_iff]
  constructor
  · intro none j inside later
    have here := none j (List.mem_range.mpr inside)
    rwa [if_pos later, Option.map_eq_none_iff] at here
  · intro none j inside
    split
    next later => rw [none j (List.mem_range.mp inside) later, Option.map_none]
    next => rfl

theorem finish?_concat (inside : i < events.length) (event : Event) :
    finish? (events ++ [event]) tid i =
      (finish? events tid i).or ((event.unblocks? events tid).map (event.time, ·)) := by
  have before : (List.range events.length).filterMap (fun j =>
      if i < j then
        (unblocksAt? (events ++ [event]) tid j).map (timeAt (events ++ [event]) j, ·)
      else none) =
      (List.range events.length).filterMap fun j =>
        if i < j then (unblocksAt? events tid j).map (timeAt events j, ·) else none := by
    apply List.filterMap_congr
    intro j within
    have within := List.mem_range.mp within
    rw [unblocksAt?_append within, timeAt_append within]
  rw [finish?, List.length_append, List.length_singleton, List.range_succ, List.filterMap_append,
    before, List.head?_append, List.filterMap_cons, List.filterMap_nil, if_pos inside,
    unblocksAt?_length, timeAt_length]
  cases event.unblocks? events tid <;> rfl

theorem finish?_length (event : Event) : finish? (events ++ [event]) tid events.length = none := by
  rw [finish?_eq_none_iff]
  intro j inside later
  rw [List.length_append, List.length_singleton] at inside
  omega

/-! ### The open period -/

theorem isBlocked_iff {count : Nat} : IsBlocked events tid count ↔
    ∃ i < count, Begins events tid i ∧ ∀ j < count, i < j → unblocksAt? events tid j = none := by
  constructor
  · rintro ⟨i, before, blocks, after⟩
    induction i using Nat.strongRecOn with
    | ind i ih =>
      by_cases begins : Begins events tid i
      · exact ⟨i, before, begins, after⟩
      · -- the thread is blocked already, and so since an earlier event
        simp only [Begins, blocks, true_and, not_forall, not_not] at begins
        obtain ⟨⟨first, earlier, blocked, between⟩, still⟩ := begins
        apply ih first earlier (Nat.lt_trans earlier before) blocked
        intro j inside later
        rcases Nat.lt_trichotomy j i with within | rfl | beyond
        · exact between j within later
        · exact still
        · exact after j inside beyond
  · rintro ⟨i, before, begins, after⟩
    exact ⟨i, before, begins.1, after⟩

theorem isBlocked_succ {count : Nat} : IsBlocked events tid (count + 1) ↔
    blocksAt events tid count = true ∨
      IsBlocked events tid count ∧ unblocksAt? events tid count = none := by
  constructor
  · rintro ⟨i, before, blocks, after⟩
    rcases Nat.lt_succ_iff_lt_or_eq.mp before with earlier | rfl
    · refine .inr ⟨⟨i, earlier, blocks, ?_⟩, after count (Nat.lt_succ_self count) earlier⟩
      intro j inside later
      exact after j (Nat.lt_succ_of_lt inside) later
    · exact .inl blocks
  · rintro (blocks | ⟨⟨i, before, blocks, after⟩, still⟩)
    · refine ⟨count, Nat.lt_succ_self count, blocks, ?_⟩
      intro j inside later
      omega
    · refine ⟨i, Nat.lt_succ_of_lt before, blocks, ?_⟩
      intro j inside later
      rcases Nat.lt_succ_iff_lt_or_eq.mp inside with within | rfl
      · exact after j within later
      · exact still

/-- A thread is blocked just when the last change of its state was to be blocked. -/
theorem isBlocked_iff_no_end {count : Nat} : IsBlocked events tid count ↔
    ∃ i < count, Begins events tid i ∧ ∀ j < count, i < j → ¬Ends events tid j := by
  constructor
  · intro blocked
    obtain ⟨i, before, begins, after⟩ := isBlocked_iff.mp blocked
    exact ⟨i, before, begins, fun j inside later ends => ends.2 (after j inside later)⟩
  · rintro ⟨i, before, begins, after⟩
    induction before with
    | refl => exact isBlocked_succ.mpr (.inl begins.1)
    | step earlier ih =>
      next last =>
      have blocked := ih fun j inside later => after j (Nat.lt_succ_of_lt inside) later
      have still := after last (Nat.lt_succ_self last) earlier
      exact isBlocked_succ.mpr (.inr ⟨blocked, not_not.mp fun ends => still ⟨blocked, ends⟩⟩)

def IsOpen (events : List Event) (tid : Int) (i : Nat) : Prop :=
  i < events.length ∧ Begins events tid i ∧ finish? events tid i = none

theorem isBlocked_length_iff :
    IsBlocked events tid events.length ↔ ∃ i, IsOpen events tid i := by
  simp only [isBlocked_iff, IsOpen, finish?_eq_none_iff]

theorem IsOpen.le_of_begins (unended : IsOpen events tid i) {j : Nat} (inside : j < events.length)
    (begins : Begins events tid j) : j ≤ i := by
  by_contra later
  have later : i < j := Nat.lt_of_not_le later
  have none := finish?_eq_none_iff.mp unended.2.2
  apply begins.2
  · exact ⟨i, later, unended.2.1.1, fun k before => none k (Nat.lt_trans before inside)⟩
  · exact none j inside later

theorem mem_beginnings : i ∈ beginnings events tid ↔ i < events.length ∧ Begins events tid i := by
  simp [beginnings]

theorem IsOpen.beginnings_eq (unended : IsOpen events tid i) :
    beginnings events tid = (List.range i).filter (fun j => Begins events tid j) ++ [i] := by
  obtain ⟨more, size⟩ := Nat.exists_eq_add_of_lt unended.1
  have none : ((List.range more).map (i + 1 + ·)).filter (fun j => Begins events tid j) = [] := by
    rw [List.filter_eq_nil_iff]
    intro j among
    obtain ⟨k, inside, rfl⟩ := List.mem_map.mp among
    have inside := List.mem_range.mp inside
    rw [decide_eq_true_eq]
    intro begins
    have early := unended.le_of_begins (by omega) begins
    omega
  rw [beginnings, size, Nat.add_right_comm, List.range_add, List.filter_append, none,
    List.append_nil, List.range_succ, List.filter_append, List.filter_cons,
    if_pos (decide_eq_true unended.2.1), List.filter_nil]

theorem IsOpen.unique {j : Nat} (first : IsOpen events tid i) (second : IsOpen events tid j) :
    i = j :=
  Nat.le_antisymm (second.le_of_begins first.1 first.2.1) (first.le_of_begins second.1 second.2.1)

theorem IsOpen.ended_before (unended : IsOpen events tid i) {j : Nat}
    (among : j ∈ (List.range i).filter fun j => Begins events tid j) :
    j < events.length ∧ finish? events tid j ≠ none := by
  simp only [List.mem_filter, List.mem_range, decide_eq_true_eq] at among
  have inside := Nat.lt_trans among.1 unended.1
  refine ⟨inside, fun none => ?_⟩
  have same := unended.unique ⟨inside, among.2, none⟩
  omega

/-- A period is open after one more event if it was and the event does not unblock the thread, or
if the event begins it. -/
theorem isOpen_concat (event : Event) : IsOpen (events ++ [event]) tid i ↔
    IsOpen events tid i ∧ event.unblocks? events tid = none ∨
      i = events.length ∧ event.blocks tid = true ∧
        ((∃ k, IsOpen events tid k) → event.unblocks? events tid ≠ none) := by
  rw [← isBlocked_length_iff, ← begins_length]
  rcases Nat.lt_trichotomy i events.length with before | rfl | beyond
  · have size : i < (events ++ [event]).length := by
      rw [List.length_append]
      omega
    have other : i ≠ events.length := by omega
    simp only [IsOpen, size, before, begins_append before, finish?_concat before, Option.or_eq_none_iff,
      Option.map_eq_none_iff, other, true_and, false_and, or_false, and_assoc]
  · simp [IsOpen, finish?_length]
  · have outside : ¬i < events.length := by omega
    have other : i ≠ events.length := by omega
    have size : ¬i < (events ++ [event]).length := by
      rw [List.length_append, List.length_singleton]
      omega
    simp only [IsOpen, size, outside, other, false_and, or_false]

/-! ### The closed periods -/

def closed? (events : List Event) (tid : Int) (i : Nat) : Option BlockedPeriod :=
  (finish? events tid i).map fun (finish, reason) =>
    { tid, start := timeAt events i, finish, reason }

def closedPeriods (events : List Event) (tid : Int) : List BlockedPeriod :=
  (beginnings events tid).filterMap (closed? events tid)

theorem closed?_length (event : Event) :
    closed? (events ++ [event]) tid events.length = none := by
  rw [closed?, finish?_length, Option.map_none]

theorem closed?_concat (event : Event) (inside : i < events.length)
    (ended : finish? events tid i ≠ none ∨ event.unblocks? events tid = none) :
    closed? (events ++ [event]) tid i = closed? events tid i := by
  rw [closed?, finish?_concat inside, timeAt_append inside, closed?]
  congr 1
  rcases ended with some | none
  · exact Option.or_of_isSome (Option.isSome_iff_ne_none.mpr some)
  · rw [none, Option.map_none, Option.or_none]

theorem closedPeriods_concat (event : Event) : closedPeriods (events ++ [event]) tid =
    (beginnings events tid).filterMap (closed? (events ++ [event]) tid) := by
  rw [closedPeriods, beginnings_concat, List.filterMap_append]
  split
  · rw [List.filterMap_cons, closed?_length, List.filterMap_nil, List.append_nil]
  · rw [List.filterMap_nil, List.append_nil]

theorem closedPeriods_of_same {event : Event}
    (same : (∃ k, IsOpen events tid k) → event.unblocks? events tid = none) :
    closedPeriods (events ++ [event]) tid = closedPeriods events tid := by
  rw [closedPeriods_concat]
  apply List.filterMap_congr
  intro i among
  obtain ⟨inside, begins⟩ := mem_beginnings.mp among
  apply closed?_concat event inside
  by_cases none : finish? events tid i = none
  · exact .inr (same ⟨i, inside, begins, none⟩)
  · exact .inl none

theorem IsOpen.closedPeriods_eq (unended : IsOpen events tid i) : closedPeriods events tid =
    ((List.range i).filter fun j => Begins events tid j).filterMap (closed? events tid) := by
  have last : closed? events tid i = none := by rw [closed?, unended.2.2, Option.map_none]
  rw [closedPeriods, unended.beginnings_eq, List.filterMap_append, List.filterMap_cons, last,
    List.filterMap_nil, List.append_nil]

theorem IsOpen.closedPeriods_concat (unended : IsOpen events tid i) {event : Event}
    {reason : PeriodEnd} (ends : event.unblocks? events tid = some reason) :
    closedPeriods (events ++ [event]) tid = closedPeriods events tid ++
      [{ tid, start := timeAt events i, finish := event.time, reason }] := by
  have here : closed? (events ++ [event]) tid i =
      some { tid, start := timeAt events i, finish := event.time, reason } := by
    rw [closed?, finish?_concat unended.1, unended.2.2, ends, timeAt_append unended.1]
    rfl
  have before : ((List.range i).filter fun j => Begins events tid j).filterMap
      (closed? (events ++ [event]) tid) = closedPeriods events tid := by
    rw [unended.closedPeriods_eq]
    apply List.filterMap_congr
    intro j among
    obtain ⟨inside, ended⟩ := unended.ended_before among
    exact closed?_concat event inside (.inl ended)
  rw [Intervals.closedPeriods_concat, unended.beginnings_eq, List.filterMap_append, before,
    List.filterMap_cons, here, List.filterMap_nil]

/-! ### All periods -/

theorem period_of_end {finish : Seconds} {reason : PeriodEnd}
    (ended : finish? events tid i = some (finish, reason)) :
    period events tid i = { tid, start := timeAt events i, finish, reason } := by
  rw [period, ended]

theorem period_of_open (none : finish? events tid i = none) : period events tid i =
    { tid, start := timeAt events i, finish := latestTime events, reason := .flushed } := by
  rw [period, none]

@[simp] theorem tid_period (events : List Event) (tid : Int) (i : Nat) :
    (period events tid i).tid = tid := by
  unfold period
  split <;> rfl

theorem filterMap_closed? {numbers : List Nat}
    (ended : ∀ i ∈ numbers, finish? events tid i ≠ none) :
    numbers.filterMap (closed? events tid) = numbers.map (period events tid) := by
  rw [← List.filterMap_eq_map]
  apply List.filterMap_congr
  intro i among
  obtain ⟨⟨finish, reason⟩, found⟩ := Option.ne_none_iff_exists'.mp (ended i among)
  rw [closed?, found, Function.comp_apply, period_of_end found, Option.map_some]

theorem map_period_of_running (running : ¬∃ k, IsOpen events tid k) :
    (beginnings events tid).map (period events tid) = closedPeriods events tid := by
  symm
  apply filterMap_closed?
  intro i among none
  obtain ⟨inside, begins⟩ := mem_beginnings.mp among
  exact running ⟨i, inside, begins, none⟩

theorem IsOpen.map_period (unended : IsOpen events tid i) :
    (beginnings events tid).map (period events tid) = closedPeriods events tid ++
      [{ tid, start := timeAt events i, finish := latestTime events, reason := .flushed }] := by
  have before := filterMap_closed? fun j among => (unended.ended_before among).2
  rw [unended.closedPeriods_eq, before, unended.beginnings_eq, List.map_append, List.map_singleton,
    period_of_open unended.2.2]

end Intervals

end ProfileTrace
