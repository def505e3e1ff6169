import ProfileTrace.Proofs.Blocked.States
import ProfileTrace.Proofs.Seconds.Arithmetic

/-! The lengths of blocked periods. Events come in the order of the trace, and their times may be
in any other: a period is negative when its thread is unblocked at an earlier time than it was
blocked. The periods left at the end last to the latest time, and are never negative. -/

namespace ProfileTrace

namespace Intervals
variable {events : List Event} {tid : Int} {i j : Nat}

def UnblockedNext (events : List Event) (tid : Int) (i j : Nat) : Prop :=
  i < j ∧ unblocksAt? events tid j ≠ none ∧
    ∀ k, i < k → k < j → unblocksAt? events tid k = none

theorem lt_of_unblocksAt? (unblocks : unblocksAt? events tid j ≠ none) : j < events.length := by
  by_contra outside
  apply unblocks
  rw [unblocksAt?, List.getElem?_eq_none (Nat.le_of_not_lt outside), Option.bind_none]

theorem findSome?_range {α : Type} {f : Nat → Option α} {count : Nat} {found : α} :
    (List.range count).findSome? f = some found ↔
      ∃ j < count, f j = some found ∧ ∀ k < j, f k = none := by
  induction count with
  | zero => simp
  | succ count ih =>
    rw [List.range_succ, List.findSome?_append, Option.or_eq_some_iff, ih,
      List.findSome?_singleton]
    constructor
    · rintro (⟨j, inside, here, before⟩ | ⟨none, last⟩)
      · exact ⟨j, Nat.lt_succ_of_lt inside, here, before⟩
      · refine ⟨count, Nat.lt_succ_self count, last, ?_⟩
        intro k inside
        exact List.findSome?_eq_none_iff.mp none k (List.mem_range.mpr inside)
    · rintro ⟨j, inside, here, before⟩
      rcases Nat.lt_succ_iff_lt_or_eq.mp inside with earlier | rfl
      · exact .inl ⟨j, earlier, here, before⟩
      · refine .inr ⟨List.findSome?_eq_none_iff.mpr ?_, here⟩
        intro k among
        exact before k (List.mem_range.mp among)

theorem finish?_eq_some_iff {finish : Seconds} {reason : PeriodEnd} :
    finish? events tid i = some (finish, reason) ↔
      ∃ j, UnblockedNext events tid i j ∧ timeAt events j = finish ∧
        unblocksAt? events tid j = some reason := by
  have none : ∀ k, (if i < k then (unblocksAt? events tid k).map (timeAt events k, ·) else none) =
      none ↔ (i < k → unblocksAt? events tid k = none) := by
    intro k
    by_cases later : i < k <;> simp [later]
  rw [finish?, List.head?_filterMap, findSome?_range]
  simp only [none]
  constructor
  · rintro ⟨j, inside, here, before⟩
    split at here
    next later =>
      obtain ⟨found, unblocks, same⟩ := Option.map_eq_some_iff.mp here
      simp only [Prod.mk.injEq] at same
      obtain ⟨rfl, rfl⟩ := same
      refine ⟨j, ⟨later, ?_, fun k after earlier => before k earlier after⟩, rfl, unblocks⟩
      rw [unblocks]
      exact Option.some_ne_none found
    next => exact absurd here (Option.some_ne_none _).symm
  · rintro ⟨j, ⟨later, some, between⟩, rfl, unblocks⟩
    refine ⟨j, lt_of_unblocksAt? some, ?_, fun k earlier after => between k after earlier⟩
    rw [if_pos later, unblocks]
    rfl

theorem unblocks?_ne_flushed (earlier : List Event) (tid : Int) (event : Event) :
    event.unblocks? earlier tid ≠ some .flushed := by
  unfold Event.unblocks?
  split <;> split <;> simp

theorem finish?_of_flushed (flushed : (period events tid i).reason = .flushed) :
    finish? events tid i = none := by
  cases ended : finish? events tid i with
  | none => rfl
  | some found =>
    obtain ⟨j, -, -, unblocks⟩ := finish?_eq_some_iff.mp ended
    rw [period_of_end ended] at flushed
    have flushed : found.2 = .flushed := flushed
    obtain ⟨event, -, here⟩ := Option.bind_eq_some_iff.mp unblocks
    rw [flushed] at here
    exact absurd here (unblocks?_ne_flushed _ tid event)

theorem timeAt_mem (inside : i < events.length) : timeAt events i ∈ events.map (·.time) := by
  rw [timeAt, List.getElem?_eq_getElem inside]
  exact List.mem_map_of_mem (List.getElem_mem inside)

theorem latestTime_mem (some : events ≠ []) : latestTime events ∈ events.map (·.time) := by
  induction events using List.reverseRecOn with
  | nil => exact absurd rfl some
  | append_singleton events event ih =>
    rw [List.map_append]
    by_cases first : events = []
    · subst first
      exact List.mem_singleton.mpr rfl
    · rw [ThreadStates.latestTime_concat first]
      rcases Seconds.latest_eq_or (latestTime events) event.time with same | same
      · rw [same]
        exact List.mem_append_left _ (ih first)
      · rw [same]
        exact List.mem_append_right _ (List.mem_singleton.mpr rfl)

theorem le_latestTime (defined : ∀ event ∈ events, event.time.isUndefined = false) {event : Event}
    (among : event ∈ events) : event.time ≤ latestTime events := by
  induction events using List.reverseRecOn with
  | nil => exact absurd among List.not_mem_nil
  | append_singleton events last ih =>
    have here := defined last (List.mem_append_right _ (List.mem_singleton.mpr rfl))
    have before : ∀ event ∈ events, event.time.isUndefined = false :=
      fun event inside => defined event (List.mem_append_left _ inside)
    by_cases first : events = []
    · subst first
      obtain rfl := List.mem_singleton.mp among
      exact Seconds.le_refl_of_defined here
    · rw [ThreadStates.latestTime_concat first]
      rcases List.mem_append.mp among with earlier | last
      · have upper := ih before earlier
        exact Seconds.le_trans upper (Seconds.le_latest_left upper.2.1 _)
      · obtain rfl := List.mem_singleton.mp last
        exact Seconds.le_latest_right here _

end Intervals

namespace ThreadStates
open Intervals

variable {events : List Event} {blocked : BlockedPeriod}

theorem times_of_mem_report (among : blocked ∈ (ofEvents events).report.periods) :
    blocked.start ∈ events.map (·.time) ∧ blocked.finish ∈ events.map (·.time) := by
  obtain ⟨i, begins, same⟩ := mem_report.mp among
  have inside := (mem_beginnings.mp begins).1
  rw [← same]
  cases ended : finish? events blocked.tid i with
  | none =>
    rw [period_of_open ended]
    exact ⟨timeAt_mem inside, latestTime_mem (List.ne_nil_of_length_pos (Nat.zero_lt_of_lt inside))⟩
  | some found =>
    obtain ⟨j, next, here, -⟩ := finish?_eq_some_iff.mp ended
    rw [period_of_end ended]
    exact ⟨timeAt_mem inside, here ▸ timeAt_mem (lt_of_unblocksAt? next.2.1)⟩

/-- The length of a period that does not end before it starts is not negative. -/
theorem zero_le_duration (finite : ∀ event ∈ events, event.time.isFinite = true)
    (among : blocked ∈ (ofEvents events).report.periods) (le : blocked.start ≤ blocked.finish) :
    Seconds.zero ≤ blocked.duration := by
  have times : ∀ time ∈ events.map (·.time), time.isFinite = true := by
    intro time there
    obtain ⟨event, inside, rfl⟩ := List.mem_map.mp there
    exact finite event inside
  obtain ⟨start, finish⟩ := times_of_mem_report among
  exact Seconds.zero_le_sub (times _ start) (times _ finish) le

theorem le_of_open (finite : ∀ event ∈ events, event.time.isFinite = true) {i : Nat} {tid : Int}
    (inside : i < events.length) (unended : finish? events tid i = none) :
    (period events tid i).start ≤ (period events tid i).finish := by
  obtain ⟨event, there, same⟩ := List.mem_map.mp (timeAt_mem inside)
  rw [period_of_open unended]
  change timeAt events i ≤ latestTime events
  rw [← same]
  exact le_latestTime (fun event among => Seconds.isUndefined_of_isFinite (finite event among)) there

/-- Blocked time of events with finite times. A period that is left at the end is never negative;
all of them are not just when no thread is unblocked at an earlier time than it was blocked, and
then their lengths and the total are not negative either. -/
theorem blocked_nonneg_iff (finite : ∀ event ∈ events, event.time.isFinite = true) :
    (∀ blocked ∈ (ofEvents events).report.periods,
        blocked.reason = .flushed → blocked.start ≤ blocked.finish) ∧
      ((∀ blocked ∈ (ofEvents events).report.periods, blocked.start ≤ blocked.finish) ↔
        ∀ tid i j, Begins events tid i → UnblockedNext events tid i j →
          timeAt events i ≤ timeAt events j) ∧
      ((∀ blocked ∈ (ofEvents events).report.periods, blocked.start ≤ blocked.finish) →
        (∀ blocked ∈ (ofEvents events).report.periods, Seconds.zero ≤ blocked.duration) ∧
          Seconds.zero ≤ (ofEvents events).report.total) := by
  refine ⟨?_, ⟨?_, ?_⟩, ?_⟩
  · intro blocked among flushed
    obtain ⟨i, begins, same⟩ := mem_report.mp among
    rw [← same] at flushed ⊢
    exact le_of_open finite (mem_beginnings.mp begins).1 (finish?_of_flushed flushed)
  · intro nonneg tid i j begins next
    have inside := Nat.lt_trans next.1 (lt_of_unblocksAt? next.2.1)
    obtain ⟨reason, unblocks⟩ := Option.ne_none_iff_exists'.mp next.2.1
    have ended := finish?_eq_some_iff.mpr ⟨j, next, rfl, unblocks⟩
    exact nonneg { tid, start := timeAt events i, finish := timeAt events j, reason } <|
      mem_report.mpr ⟨i, mem_beginnings.mpr ⟨inside, begins⟩, period_of_end ended⟩
  · intro ordered blocked among
    obtain ⟨i, begins, same⟩ := mem_report.mp among
    obtain ⟨inside, begins⟩ := mem_beginnings.mp begins
    rw [← same]
    cases ended : finish? events blocked.tid i with
    | none => exact le_of_open finite inside ended
    | some found =>
      obtain ⟨j, next, here, -⟩ := finish?_eq_some_iff.mp ended
      rw [period_of_end ended, ← here]
      exact ordered blocked.tid i j begins next
  · intro nonneg
    have lengths : ∀ blocked ∈ (ofEvents events).report.periods, Seconds.zero ≤ blocked.duration :=
      fun blocked among => zero_le_duration finite among (nonneg blocked among)
    refine ⟨lengths, Seconds.zero_le_sum ?_⟩
    intro length among
    obtain ⟨blocked, inside, rfl⟩ := List.mem_map.mp among
    exact lengths blocked inside

/-- A thread that is blocked at five seconds, and unblocked at three by another thread on its
processor. -/
def backwards : List Event :=
  [{ kind := .scheduler, tid := 1, cpu := 0, time := ⟨0x4014000000000000⟩
     switch := some { previousTid := 1, nextTid := 2 } },
   { tid := 2, cpu := 0, time := ⟨0x4008000000000000⟩ }]

theorem blocked_nonneg_iff_backwards :
    (∀ event ∈ backwards, event.time.isFinite = true) ∧
      ¬∀ blocked ∈ (ofEvents backwards).report.periods, blocked.start ≤ blocked.finish := by
  have finite : ∀ event ∈ backwards, event.time.isFinite = true := by decide
  refine ⟨finite, fun nonneg => ?_⟩
  have ordered := (blocked_nonneg_iff finite).2.1.mp nonneg 1 0 1
  have next : UnblockedNext backwards 1 0 1 := by
    refine ⟨by decide, by decide, fun k after before => ?_⟩
    omega
  exact absurd (ordered (by decide) next) (by decide)

end ThreadStates

end ProfileTrace
