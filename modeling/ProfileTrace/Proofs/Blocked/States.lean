import Mathlib.Data.List.Induction
import ProfileTrace.Proofs.Blocked.Intervals
import ProfileTrace.Proofs.Seconds.Order

/-! The states of the threads after some events of a trace. For each thread they are what the
events say of it: it is blocked in just its intervals, and each of them is one period of the
report. -/

namespace ProfileTrace

namespace ThreadStates
open Event Intervals

variable {states : ThreadStates} {events : List Event} {tid : Int}

def endedOf (states : ThreadStates) (tid : Int) : List BlockedPeriod :=
  states.ended.toList.filter (·.tid = tid)

/-! ### One event -/

theorem getElem?_blocked_unblock (other tid : Int) (time : Seconds) (reason : PeriodEnd)
    (states : ThreadStates) :
    (states.unblock other time reason).blocked[tid]? =
      if other = tid then none else states.blocked[tid]? := by
  unfold unblock
  split
  next start found =>
    simp only [Std.TreeMap.getElem?_erase, Std.compare_eq_iff_eq]
  next none =>
    split
    next same => rw [← same, none]
    next => rfl

theorem endedOf_unblock (other tid : Int) (time : Seconds) (reason : PeriodEnd)
    (states : ThreadStates) :
    (states.unblock other time reason).endedOf tid = states.endedOf tid ++
      if other = tid then
        states.blocked[tid]?.toList.map fun start => { tid, start, finish := time, reason }
      else [] := by
  unfold unblock endedOf
  by_cases same : other = tid
  · subst same
    split
    next start found => simp [found]
    next none => simp [none]
  · split
    next start found => simp [same]
    next none => simp [same]

theorem getElem?_blocked_block (other tid : Int) (time : Seconds) (states : ThreadStates) :
    (states.block other time).blocked[tid]? =
      if other = tid then some (states.blocked[tid]?.getD time) else states.blocked[tid]? := by
  simp only [block, Std.TreeMap.getElem?_insertIfNew, Std.compare_eq_iff_eq]
  by_cases same : other = tid
  · subst same
    cases found : states.blocked[other]? with
    | none =>
      have absent : other ∉ states.blocked := by
        rw [Std.TreeMap.mem_iff_isSome_getElem?, found]
        exact Bool.false_ne_true
      rw [if_pos ⟨rfl, absent⟩, if_pos rfl, Option.getD_none]
    | some start =>
      have there : other ∈ states.blocked := by
        rw [Std.TreeMap.mem_iff_isSome_getElem?, found]
        rfl
      rw [if_neg fun absent => absent.2 there, if_pos rfl, Option.getD_some]
  · rw [if_neg fun found => same found.1, if_neg same]

@[simp] theorem running_unblock (other : Int) (time : Seconds) (reason : PeriodEnd)
    (states : ThreadStates) : (states.unblock other time reason).running = states.running := by
  unfold unblock
  split <;> rfl

@[simp] theorem last_unblock (other : Int) (time : Seconds) (reason : PeriodEnd)
    (states : ThreadStates) : (states.unblock other time reason).last = states.last := by
  unfold unblock
  split <;> rfl

def release (event : Event) (states : ThreadStates) : ThreadStates :=
  match event.handover? with
  | some switch => states.unblock switch.nextTid event.time .explicit
  | none => states.displace event.cpu event.tid event.time

def withhold (event : Event) (states : ThreadStates) : ThreadStates :=
  match event.handover? with
  | some switch => states.block switch.previousTid event.time
  | none => states

theorem observe_eq (event : Event) (states : ThreadStates) :
    states.observe event =
      (((states.seeTime event.time).release event).withhold event).seeThread event.cpu
        event.tid := by
  unfold observe release withhold handover?
  cases event.kind with
  | cpu => rfl
  | scheduler => cases event.switch <;> rfl

/-- The states know the thread that each processor has had last. -/
def KnowsThreads (events : List Event) (states : ThreadStates) : Prop :=
  ∀ cpu, states.running[cpu]? = if isPresent cpu then lastThread? cpu events else none

/-- An event unblocks one thread or none, and the states tell which by what they know. -/
theorem release_cases (knows : KnowsThreads events states) (event : Event) :
    (∃ other reason, states.release event = states.unblock other event.time reason ∧
        ∀ tid, event.unblocks? events tid = if other = tid then some reason else none) ∨
      states.release event = states ∧ ∀ tid, event.unblocks? events tid = none := by
  have here := knows event.cpu
  unfold release unblocks?
  cases event.handover? with
  | some switch => exact .inl ⟨switch.nextTid, .explicit, rfl, fun _ => rfl⟩
  | none =>
    simp only [displace, here]
    cases present : isPresent event.cpu with
    | false => exact .inr ⟨rfl, by simp⟩
    | true =>
      cases last : lastThread? event.cpu events with
      | none => exact .inr ⟨rfl, by simp⟩
      | some previous =>
        by_cases same : previous = event.tid
        · refine .inr ⟨by simp [same], ?_⟩
          intro tid
          simp only [same, true_and, Option.some.injEq]
          exact if_neg fun ⟨other, again⟩ => other again
        · refine .inl ⟨previous, .induced, by simp [same], ?_⟩
          intro tid
          by_cases found : previous = tid
          · simp [← found, Ne.symm same]
          · simp [found]

theorem getElem?_blocked_release (knows : KnowsThreads events states) (event : Event) (tid : Int) :
    (states.release event).blocked[tid]? =
      if event.unblocks? events tid = none then states.blocked[tid]? else none := by
  rcases release_cases knows event with ⟨other, reason, same, unblocks⟩ | ⟨same, unblocks⟩
  · rw [same, getElem?_blocked_unblock, unblocks]
    by_cases found : other = tid <;> simp [found]
  · rw [same, if_pos (unblocks tid)]

theorem endedOf_release (knows : KnowsThreads events states) (event : Event) (tid : Int) :
    (states.release event).endedOf tid = states.endedOf tid ++
      (event.unblocks? events tid).toList.flatMap fun reason =>
        states.blocked[tid]?.toList.map fun start =>
          { tid, start, finish := event.time, reason } := by
  rcases release_cases knows event with ⟨other, reason, same, unblocks⟩ | ⟨same, unblocks⟩
  · rw [same, endedOf_unblock, unblocks]
    by_cases found : other = tid <;> simp [found]
  · simp [same, unblocks]

theorem getElem?_blocked_withhold (event : Event) (tid : Int) (states : ThreadStates) :
    (states.withhold event).blocked[tid]? =
      if event.blocks tid then some (states.blocked[tid]?.getD event.time)
      else states.blocked[tid]? := by
  unfold withhold blocks
  cases event.handover? with
  | some switch => simp [getElem?_blocked_block]
  | none => rfl

theorem release_eq_or (event : Event) (states : ThreadStates) : states.release event = states ∨
    ∃ other reason, states.release event = states.unblock other event.time reason := by
  unfold release
  split
  next switch _ => exact .inr ⟨switch.nextTid, .explicit, rfl⟩
  · unfold displace
    split
    next previous _ =>
      split
      · exact .inl rfl
      · exact .inr ⟨previous, .induced, rfl⟩
    · exact .inl rfl

@[simp] theorem running_release (event : Event) (states : ThreadStates) :
    (states.release event).running = states.running := by
  rcases release_eq_or event states with same | ⟨other, reason, same⟩ <;> simp [same]

@[simp] theorem last_release (event : Event) (states : ThreadStates) :
    (states.release event).last = states.last := by
  rcases release_eq_or event states with same | ⟨other, reason, same⟩ <;> simp [same]

@[simp] theorem running_withhold (event : Event) (states : ThreadStates) :
    (states.withhold event).running = states.running := by
  unfold withhold
  split <;> rfl

@[simp] theorem last_withhold (event : Event) (states : ThreadStates) :
    (states.withhold event).last = states.last := by
  unfold withhold
  split <;> rfl

@[simp] theorem ended_withhold (event : Event) (states : ThreadStates) :
    (states.withhold event).ended = states.ended := by
  unfold withhold
  split <;> rfl

@[simp] theorem ended_seeThread (cpu tid : Int) (states : ThreadStates) :
    (states.seeThread cpu tid).ended = states.ended := by
  unfold seeThread
  split <;> rfl

@[simp] theorem blocked_seeThread (cpu tid : Int) (states : ThreadStates) :
    (states.seeThread cpu tid).blocked = states.blocked := by
  unfold seeThread
  split <;> rfl

theorem getElem?_blocked_observe (knows : KnowsThreads events states) (event : Event) (tid : Int) :
    (states.observe event).blocked[tid]? =
      if event.blocks tid then
        some (((if event.unblocks? events tid = none then states.blocked[tid]? else none)).getD
          event.time)
      else if event.unblocks? events tid = none then states.blocked[tid]? else none := by
  have seen : KnowsThreads events (states.seeTime event.time) := knows
  rw [observe_eq, blocked_seeThread, getElem?_blocked_withhold, getElem?_blocked_release seen]
  rfl

theorem endedOf_observe (knows : KnowsThreads events states) (event : Event) (tid : Int) :
    (states.observe event).endedOf tid = states.endedOf tid ++
      (event.unblocks? events tid).toList.flatMap fun reason =>
        states.blocked[tid]?.toList.map fun start =>
          { tid, start, finish := event.time, reason } := by
  have seen : KnowsThreads events (states.seeTime event.time) := knows
  rw [observe_eq, endedOf, ended_seeThread, ended_withhold]
  exact endedOf_release seen event tid

/-! ### A run of events -/

def ofEvents (events : List Event) : ThreadStates :=
  events.foldl (fun states event => states.observe event) {}

theorem ofEvents_concat (events : List Event) (event : Event) :
    ofEvents (events ++ [event]) = (ofEvents events).observe event := by
  rw [ofEvents, List.foldl_append]
  rfl

theorem lastThread?_concat (cpu : Int) (events : List Event) (event : Event) :
    lastThread? cpu (events ++ [event]) =
      if event.cpu = cpu then some event.tid else lastThread? cpu events := by
  unfold lastThread?
  by_cases same : event.cpu = cpu <;> simp [List.filter_append, same]

theorem running_observe (event : Event) (states : ThreadStates) :
    (states.observe event).running = if isPresent event.cpu then
      states.running.insert event.cpu event.tid else states.running := by
  rw [observe_eq, seeThread]
  split <;> simp [seeTime]

theorem knowsThreads_ofEvents (events : List Event) : KnowsThreads events (ofEvents events) := by
  induction events using List.reverseRecOn with
  | nil =>
    intro cpu
    simp [ofEvents, lastThread?]
  | append_singleton events event ih =>
    intro cpu
    rw [ofEvents_concat, running_observe, lastThread?_concat]
    by_cases same : event.cpu = cpu
    · subst same
      cases present : isPresent event.cpu with
      | false => simpa [present] using ih event.cpu
      | true => simp
    · cases present : isPresent event.cpu with
      | false => simpa [same] using ih cpu
      | true => simpa [same, Std.TreeMap.getElem?_insert] using ih cpu

theorem blocked_ofEvents (events : List Event) (tid : Int) :
    (∃ i, IsOpen events tid i ∧ (ofEvents events).blocked[tid]? = some (timeAt events i)) ∨
      (¬∃ i, IsOpen events tid i) ∧ (ofEvents events).blocked[tid]? = none := by
  induction events using List.reverseRecOn with
  | nil =>
    refine .inr ⟨?_, ?_⟩
    · rintro ⟨i, inside, -⟩
      exact Nat.not_lt_zero i inside
    · simp [ofEvents]
  | append_singleton events event ih =>
    rw [ofEvents_concat, getElem?_blocked_observe (knowsThreads_ofEvents events)]
    -- the thread may stay blocked; if it does not, the event may block it
    have left : (∃ i, IsOpen events tid i ∧ event.unblocks? events tid = none ∧
          (ofEvents events).blocked[tid]? = some (timeAt events i)) ∨
        ((∃ i, IsOpen events tid i) → event.unblocks? events tid ≠ none) ∧
          (if event.unblocks? events tid = none then (ofEvents events).blocked[tid]? else none) =
            none := by
      rcases ih with ⟨i, unended, since⟩ | ⟨running, none⟩
      · by_cases still : event.unblocks? events tid = none
        · exact .inl ⟨i, unended, still, since⟩
        · exact .inr ⟨fun _ => still, if_neg still⟩
      · exact .inr ⟨fun some => absurd some running, by rw [none, ite_self]⟩
    rcases left with ⟨i, unended, still, since⟩ | ⟨running, none⟩
    · refine .inl ⟨i, (isOpen_concat event).mpr (.inl ⟨unended, still⟩), ?_⟩
      rw [if_pos still, since, timeAt_append unended.1, Option.getD_some, ite_self]
    · rw [none, Option.getD_none]
      by_cases blocks : event.blocks tid = true
      · refine .inl ⟨events.length, (isOpen_concat event).mpr (.inr ⟨rfl, blocks, running⟩), ?_⟩
        rw [if_pos blocks, timeAt_length]
      · refine .inr ⟨?_, if_neg blocks⟩
        rintro ⟨i, unended⟩
        rcases (isOpen_concat event).mp unended with ⟨before, still⟩ | ⟨-, begins, -⟩
        · exact running ⟨i, before⟩ still
        · exact blocks begins

theorem endedOf_ofEvents (events : List Event) (tid : Int) :
    (ofEvents events).endedOf tid = closedPeriods events tid := by
  induction events using List.reverseRecOn with
  | nil => rfl
  | append_singleton events event ih =>
    rw [ofEvents_concat, endedOf_observe (knowsThreads_ofEvents events), ih]
    cases unblocks : event.unblocks? events tid with
    | none =>
      rw [closedPeriods_of_same fun _ => unblocks]
      exact List.append_nil _
    | some reason =>
      rcases blocked_ofEvents events tid with ⟨i, unended, since⟩ | ⟨running, none⟩
      · rw [unended.closedPeriods_concat unblocks, since]
        rfl
      · rw [closedPeriods_of_same fun some => absurd some running, none]
        exact List.append_nil _

theorem latestTime_concat (some : events ≠ []) (event : Event) :
    latestTime (events ++ [event]) = (latestTime events).latest event.time := by
  obtain ⟨first, others, rfl⟩ := List.exists_cons_of_ne_nil some
  rw [List.cons_append, latestTime, List.foldl_append]
  rfl

theorem last_observe (event : Event) (states : ThreadStates) :
    (states.observe event).last =
      some ((states.last.map (·.latest event.time)).getD event.time) := by
  rw [observe_eq, seeThread]
  split <;> simp [seeTime]

theorem last_ofEvents (events : List Event) :
    (ofEvents events).last = if events = [] then none else some (latestTime events) := by
  induction events using List.reverseRecOn with
  | nil => rfl
  | append_singleton events event ih =>
    have some : events ++ [event] ≠ [] := by simp
    rw [ofEvents_concat, last_observe, ih, if_neg some]
    by_cases first : events = []
    · subst first
      rfl
    · rw [if_neg first, latestTime_concat first]
      rfl

/-! ### The report -/

theorem stateOf_eq_blocked_iff (states : ThreadStates) (tid : Int) :
    states.stateOf tid = .blocked ↔ states.blocked[tid]? ≠ none := by
  rw [stateOf, Std.TreeMap.contains_eq_isSome_getElem?]
  cases states.blocked[tid]? <;> simp

theorem stateOf_ofEvents (events : List Event) (tid : Int) :
    (ofEvents events).stateOf tid = .blocked ↔ IsBlocked events tid events.length := by
  rw [stateOf_eq_blocked_iff, isBlocked_length_iff]
  rcases blocked_ofEvents events tid with ⟨i, unended, since⟩ | ⟨running, none⟩
  · simp only [since, ne_eq, reduceCtorEq, not_false_eq_true, true_iff]
    exact ⟨i, unended⟩
  · simp [none, running]

theorem filter_key_eq {entries : List (Int × Seconds)} {start : Seconds}
    (distinct : entries.Pairwise fun a b => ¬compare a.1 b.1 = .eq)
    (among : (tid, start) ∈ entries) : entries.filter (·.1 = tid) = [(tid, start)] := by
  induction entries with
  | nil => simp at among
  | cons entry entries ih =>
    obtain ⟨others, distinct⟩ := List.pairwise_cons.mp distinct
    simp only [Std.compare_eq_iff_eq] at others
    rcases List.mem_cons.mp among with rfl | later
    · have none : entries.filter (·.1 = tid) = [] := by
        rw [List.filter_eq_nil_iff]
        intro entry inside
        simpa using Ne.symm (others entry inside)
      rw [List.filter_cons_of_pos (by simp), none]
    · rw [List.filter_cons_of_neg (by simpa using others _ later), ih distinct later]

theorem filter_toList_eq (map : Std.TreeMap Int Seconds) (tid : Int) :
    map.toList.filter (·.1 = tid) = map[tid]?.toList.map (tid, ·) := by
  cases found : map[tid]? with
  | none =>
    rw [Option.toList_none, List.map_nil, List.filter_eq_nil_iff]
    rintro ⟨key, start⟩ among
    have here := Std.TreeMap.mem_toList_iff_getElem?_eq_some.mp among
    simp only [decide_eq_true_eq]
    rintro rfl
    simp [found] at here
  | some start =>
    exact filter_key_eq Std.TreeMap.distinct_keys_toList
      (Std.TreeMap.mem_toList_iff_getElem?_eq_some.mpr found)

def flushedPeriod (states : ThreadStates) (entry : Int × Seconds) : BlockedPeriod where
  tid := entry.1
  start := entry.2
  finish := states.last.getD .zero
  reason := .flushed

/-- All periods in the order in which they are closed: those that have ended, and then those that
the end of the trace closes. -/
def closing (states : ThreadStates) : List BlockedPeriod :=
  states.ended.toList ++ states.blocked.toList.map states.flushedPeriod

theorem periods_report_perm (states : ThreadStates) : states.report.periods.Perm states.closing :=
  List.mergeSort_perm states.closing fun a b => a.start.totalLe b.start

theorem filter_closing (states : ThreadStates) (tid : Int) :
    states.closing.filter (·.tid = tid) = states.endedOf tid ++
      states.blocked[tid]?.toList.map fun start => states.flushedPeriod (tid, start) := by
  rw [closing, List.filter_append, List.filter_map, endedOf]
  congr 1
  have flushed := congrArg (List.map states.flushedPeriod) (filter_toList_eq states.blocked tid)
  rw [List.map_map] at flushed
  exact flushed

theorem closing_ofEvents (events : List Event) (tid : Int) :
    (ofEvents events).closing.filter (·.tid = tid) =
      (beginnings events tid).map (period events tid) := by
  rw [filter_closing, endedOf_ofEvents]
  rcases blocked_ofEvents events tid with ⟨i, unended, since⟩ | ⟨running, none⟩
  · have some : events ≠ [] := List.ne_nil_of_length_pos (Nat.zero_lt_of_lt unended.1)
    have last := last_ofEvents events
    rw [if_neg some] at last
    rw [unended.map_period, since, Option.toList_some, List.map_singleton, flushedPeriod, last,
      Option.getD_some]
  · rw [map_period_of_running running, none, Option.toList_none, List.map_nil, List.append_nil]

theorem report_perm (events : List Event) (tid : Int) :
    ((ofEvents events).report.periods.filter (·.tid = tid)).Perm
      ((beginnings events tid).map (period events tid)) := by
  rw [← closing_ofEvents]
  exact (periods_report_perm (ofEvents events)).filter _

theorem mem_report {blocked : BlockedPeriod} :
    blocked ∈ (ofEvents events).report.periods ↔
      ∃ i ∈ beginnings events blocked.tid, period events blocked.tid i = blocked := by
  rw [← List.mem_map, ← (report_perm events blocked.tid).mem_iff, List.mem_filter]
  simp

theorem sorted_report (states : ThreadStates) :
    states.report.periods.Pairwise fun a b => a.start.totalLe b.start := by
  apply List.pairwise_mergeSort
  · exact fun a b c => Seconds.totalLe_trans a.start b.start c.start
  · exact fun a b => Seconds.totalLe_total a.start b.start

theorem stateOf_take {count : Nat} (inside : count ≤ events.length) (tid : Int) :
    (ofEvents (events.take count)).stateOf tid = .blocked ↔ IsBlocked events tid count := by
  have size : (events.take count).length = count := List.length_take_of_le inside
  have before : IsBlocked (events.take count ++ events.drop count) tid count ↔
      IsBlocked (events.take count) tid count :=
    isBlocked_append (Nat.le_of_eq size.symm) _
  rw [List.take_append_drop] at before
  rw [stateOf_ofEvents, size, before]

/-- After each of the events a thread is blocked just when the last change of its state was to be
blocked. In the end there is one period for each such change, from there to the next event that
unblocks the thread or else to the latest time, and the periods are in the order of their
starts. -/
theorem blocked_just_in_intervals (events : List Event) (tid : Int) :
    (∀ count ≤ events.length, (ofEvents (events.take count)).stateOf tid = .blocked ↔
        ∃ i < count, Begins events tid i ∧ ∀ j < count, i < j → ¬Ends events tid j) ∧
      ((ofEvents events).report.periods.filter (·.tid = tid)).Perm
        ((beginnings events tid).map (period events tid)) ∧
      (ofEvents events).report.periods.Pairwise fun a b => a.start.totalLe b.start := by
  refine ⟨?_, report_perm events tid, sorted_report (ofEvents events)⟩
  intro count inside
  rw [stateOf_take inside, isBlocked_iff_no_end]

/-- A switch from a blocked thread to itself ends its period and begins another. -/
example :
    let switch (previousTid nextTid : Int) : Event :=
      { kind := .scheduler, switch := some { previousTid, nextTid } }
    beginnings [switch 1 2, switch 2 3, switch 1 1] 1 = [0, 2] := by
  decide

end ThreadStates

end ProfileTrace
