import ProfileTrace.Proofs.Blocked.Length

/-! Blocked periods of a trace whose times never go back. A thread that begins to be blocked once
more has been unblocked since, so each of its periods ends before the next one starts; only the
last one can be left to the end of the trace, and the trace ends at its latest time. -/

namespace ProfileTrace

namespace Intervals
variable {events : List Event} {tid : Int} {i j : Nat}

theorem exists_unblockedNext (begins : Begins events tid i) (later : i < j)
    (inside : j < events.length) (again : Begins events tid j) :
    ∃ k ≤ j, UnblockedNext events tid i k := by
  cases ended : finish? events tid i with
  | none =>
    have unended : IsOpen events tid i := ⟨Nat.lt_trans later inside, begins, ended⟩
    exact absurd (unended.le_of_begins inside again) (Nat.not_le.mpr later)
  | some found =>
    obtain ⟨k, next, -, -⟩ := finish?_eq_some_iff.mp ended
    refine ⟨k, Nat.le_of_not_lt fun beyond => ?_, next⟩
    -- the thread is still blocked when the second event blocks it
    have blocked : IsBlocked events tid j :=
      ⟨i, later, begins.1, fun m before after => next.2.2 m after (Nat.lt_trans before beyond)⟩
    exact again.2 blocked (next.2.2 j later beyond)

theorem timeAt_mono (defined : ∀ event ∈ events, event.time.isUndefined = false)
    (ordered : events.Pairwise fun a b => a.time ≤ b.time) (le : i ≤ j) (inside : j < events.length) :
    timeAt events i ≤ timeAt events j := by
  have before : i < events.length := Nat.lt_of_le_of_lt le inside
  rw [timeAt, timeAt, List.getElem?_eq_getElem before, List.getElem?_eq_getElem inside]
  rcases Nat.eq_or_lt_of_le le with same | less
  · subst same
    exact Seconds.le_refl_of_defined (defined _ (List.getElem_mem inside))
  · exact List.pairwise_iff_getElem.mp ordered i j before inside less

theorem start_period (events : List Event) (tid : Int) (i : Nat) :
    (period events tid i).start = timeAt events i := by
  unfold period
  split <;> rfl

theorem before_last {α : Type} {holds : α → Prop} {entries : List α}
    (each : entries.Pairwise fun a _ => holds a) : ∀ a ∈ entries.dropLast, holds a := by
  intro a among
  rcases entries.eq_nil_or_concat with none | ⟨first, last, rfl⟩
  · subst none
    exact absurd among List.not_mem_nil
  · rw [List.concat_eq_append, List.dropLast_concat] at among
    rw [List.concat_eq_append] at each
    exact (List.pairwise_append.mp each).2.2 a among last List.mem_cons_self

theorem beginnings_sorted (events : List Event) (tid : Int) :
    (beginnings events tid).Pairwise (· < ·) :=
  List.pairwise_lt_range.filter _

section Ordered
variable (defined : ∀ event ∈ events, event.time.isUndefined = false)
  (ordered : events.Pairwise fun a b => a.time ≤ b.time)
include defined ordered

theorem period_start_le_finish (inside : i < events.length) :
    (period events tid i).start ≤ (period events tid i).finish := by
  cases ended : finish? events tid i with
  | none =>
    obtain ⟨event, there, same⟩ := List.mem_map.mp (timeAt_mem inside)
    rw [period_of_open ended]
    exact same ▸ le_latestTime defined there
  | some found =>
    obtain ⟨k, next, here, -⟩ := finish?_eq_some_iff.mp ended
    rw [period_of_end ended]
    exact here ▸ timeAt_mono defined ordered (Nat.le_of_lt next.1) (lt_of_unblocksAt? next.2.1)

theorem period_before (begins : Begins events tid i) (later : i < j) (inside : j < events.length)
    (again : Begins events tid j) :
    (period events tid i).finish ≤ (period events tid j).start ∧
      (period events tid i).reason ≠ .flushed := by
  obtain ⟨k, before, next⟩ := exists_unblockedNext begins later inside again
  obtain ⟨reason, unblocks⟩ := Option.ne_none_iff_exists'.mp next.2.1
  have ended := finish?_eq_some_iff.mpr ⟨k, next, rfl, unblocks⟩
  constructor
  · rw [period_of_end ended, start_period]
    exact timeAt_mono defined ordered before inside
  · intro flushed
    exact absurd (finish?_of_flushed flushed) (ended ▸ Option.some_ne_none _)

theorem pairwise_periods (tid : Int) :
    ((beginnings events tid).map (period events tid)).Pairwise fun a b =>
      a.finish ≤ b.start ∧ a.reason ≠ .flushed := by
  rw [List.pairwise_map]
  apply (beginnings_sorted events tid).imp_of_mem
  intro i j first second later
  obtain ⟨inside, again⟩ := mem_beginnings.mp second
  exact period_before defined ordered (mem_beginnings.mp first).2 later inside again

end Ordered

end Intervals

namespace ThreadStates
open Intervals

variable {events : List Event}

theorem finish_of_flushed {blocked : BlockedPeriod}
    (among : blocked ∈ (ofEvents events).report.periods) (flushed : blocked.reason = .flushed) :
    blocked.finish = latestTime events := by
  obtain ⟨i, -, same⟩ := mem_report.mp among
  rw [← same] at flushed ⊢
  rw [period_of_open (finish?_of_flushed flushed)]

theorem le_latestTime_of_mem_report (defined : ∀ event ∈ events, event.time.isUndefined = false)
    {blocked : BlockedPeriod} (among : blocked ∈ (ofEvents events).report.periods) :
    blocked.start ≤ latestTime events ∧ blocked.finish ≤ latestTime events := by
  have upper : ∀ time ∈ events.map (·.time), time ≤ latestTime events := by
    intro time there
    obtain ⟨event, inside, rfl⟩ := List.mem_map.mp there
    exact le_latestTime defined inside
  obtain ⟨start, finish⟩ := times_of_mem_report among
  exact ⟨upper _ start, upper _ finish⟩

/-- Blocked time of events whose times are defined and never go back. The periods of each thread,
in the order in which they are closed, follow one another without overlap, and only the last of
them can be one that the end of the trace has closed. All those end at one time, and no period
starts or ends after it. -/
theorem blocked_disjoint (defined : ∀ event ∈ events, event.time.isUndefined = false)
    (ordered : events.Pairwise fun a b => a.time ≤ b.time) :
    (ofEvents events).report.periods.Perm (ofEvents events).closing ∧
      (∀ tid,
        let periods := (ofEvents events).closing.filter (·.tid = tid)
        (∀ blocked ∈ periods, blocked.start ≤ blocked.finish) ∧
          (periods.Pairwise fun a b => a.finish ≤ b.start) ∧
          ∀ blocked ∈ periods.dropLast, blocked.reason ≠ .flushed) ∧
      ∀ blocked ∈ (ofEvents events).report.periods, blocked.reason = .flushed →
        ∀ other ∈ (ofEvents events).report.periods,
          other.start ≤ blocked.finish ∧ other.finish ≤ blocked.finish ∧
            (other.reason = .flushed → other.finish = blocked.finish) := by
  refine ⟨periods_report_perm _, ?_, ?_⟩
  · intro tid
    have follow := pairwise_periods defined ordered tid
    rw [closing_ofEvents]
    refine ⟨?_, follow.imp And.left, ?_⟩
    · intro blocked among
      obtain ⟨i, begins, rfl⟩ := List.mem_map.mp among
      exact period_start_le_finish defined ordered (mem_beginnings.mp begins).1
    · intro blocked among
      exact before_last (follow.imp And.right) blocked among
  · intro blocked among flushed other there
    rw [finish_of_flushed among flushed]
    obtain ⟨start, finish⟩ := le_latestTime_of_mem_report defined there
    exact ⟨start, finish, finish_of_flushed there⟩

/-- A thread that is blocked at one second, unblocked at two and blocked for good at three. -/
def blockedTwice : List Event :=
  let switch (time : Seconds) (previousTid nextTid : Int) : Event :=
    { kind := .scheduler, time, switch := some { previousTid, nextTid } }
  [switch ⟨0x3ff0000000000000⟩ 1 2, switch ⟨0x4000000000000000⟩ 2 1,
    switch ⟨0x4008000000000000⟩ 1 2]

theorem blocked_disjoint_blockedTwice :
    (ofEvents blockedTwice).closing.filter (·.tid = 1) =
        [⟨1, ⟨0x3ff0000000000000⟩, ⟨0x4000000000000000⟩, .explicit⟩,
          ⟨1, ⟨0x4008000000000000⟩, ⟨0x4008000000000000⟩, .flushed⟩] ∧
      ((ofEvents blockedTwice).closing.filter (·.tid = 1)).Pairwise fun a b =>
        a.finish ≤ b.start := by
  have defined : ∀ event ∈ blockedTwice, event.time.isUndefined = false := by decide
  have ordered : blockedTwice.Pairwise fun a b => a.time ≤ b.time := by decide
  refine ⟨?_, ((blocked_disjoint defined ordered).2.1 1).2.1⟩
  rw [closing_ofEvents]
  decide

end ThreadStates

end ProfileTrace
