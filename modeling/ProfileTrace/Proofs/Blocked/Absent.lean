import ProfileTrace.Proofs.Chunk.SinglePass
import ProfileTrace.Proofs.Session.SingleWorker

/-! Which threads are blocked at all in a trace. A switch blocks the thread that it names as the
one before, and asks nothing of that name: where the line gives none, the number that stands for
an absent one is taken for a thread. -/

namespace ProfileTrace

theorem Event.blocks_iff {event : Event} {tid : Int} : event.blocks tid = true ↔
    ∃ switch, event.handover? = some switch ∧ switch.previousTid = tid := by
  rw [Event.blocks]
  cases event.handover? <;> simp

namespace ThreadStates
open Event Intervals

theorem exists_blocksAt_iff {events : List Event} {tid : Int} :
    (∃ i < events.length, blocksAt events tid i = true) ↔
      ∃ event ∈ events, event.blocks tid = true := by
  constructor
  · rintro ⟨i, inside, blocks⟩
    rw [blocksAt, List.getElem?_eq_getElem inside] at blocks
    exact ⟨events[i], List.getElem_mem inside, blocks⟩
  · rintro ⟨event, among, blocks⟩
    obtain ⟨i, inside, rfl⟩ := List.getElem_of_mem among
    exact ⟨i, inside, by rwa [blocksAt, List.getElem?_eq_getElem inside]⟩

theorem exists_blocked_iff (events : List Event) (tid : Int) :
    (∃ count ≤ events.length, (ofEvents (events.take count)).stateOf tid = .blocked) ↔
      ∃ event ∈ events, event.blocks tid = true := by
  rw [← exists_blocksAt_iff]
  constructor
  · rintro ⟨count, inside, blocked⟩
    obtain ⟨i, before, blocks, -⟩ := (stateOf_take inside tid).mp blocked
    exact ⟨i, Nat.lt_of_lt_of_le before inside, blocks⟩
  · rintro ⟨i, inside, blocks⟩
    refine ⟨i + 1, inside, (stateOf_take inside tid).mpr ?_⟩
    exact isBlocked_succ.mpr (.inl blocks)

theorem exists_mem_report_iff (events : List Event) (tid : Int) :
    (∃ blocked ∈ (ofEvents events).report.periods, blocked.tid = tid) ↔
      ∃ event ∈ events, event.blocks tid = true := by
  rw [← exists_blocksAt_iff]
  constructor
  · rintro ⟨blocked, among, rfl⟩
    obtain ⟨i, begins, -⟩ := mem_report.mp among
    obtain ⟨inside, blocks, -⟩ := mem_beginnings.mp begins
    exact ⟨i, inside, blocks⟩
  · rintro ⟨i, inside, blocks⟩
    obtain ⟨first, before, begins, -⟩ := isBlocked_iff.mp (isBlocked_succ.mpr (.inl blocks))
    have among := mem_beginnings.mpr ⟨Nat.lt_of_lt_of_le before inside, begins⟩
    have named : (period events tid first).tid = tid := tid_period events tid first
    refine ⟨period events tid first, mem_report.mpr ⟨first, ?_⟩, named⟩
    rw [named]
    exact ⟨among, rfl⟩

end ThreadStates

namespace Session
open ThreadStates (ofEvents exists_blocked_iff exists_mem_report_iff)

/-- The threads that a session for blocked time takes for blocked, be it for a while or in what it
gives at the end, are just those that some switch names as the thread before. The number of an
absent thread is none the less one of them when a switch without that name is read. -/
theorem blocked_threads {reader : Reader} (calm : reader.Faultless) {options : Options}
    (timed : options.threadTime = true) :
    ∃ source, read options reader = .ok source ∧ ∀ tid,
      ((∃ count ≤ (observed options reader).length,
          (ofEvents ((observed options reader).take count)).stateOf tid = .blocked) ↔
        ∃ event ∈ observed options reader, ∃ switch,
          event.handover? = some switch ∧ switch.previousTid = tid) ∧
      ((∃ blocked ∈ source.blockedPeriods, blocked.tid = tid) ↔
        ∃ event ∈ observed options reader, ∃ switch,
          event.handover? = some switch ∧ switch.previousTid = tid) := by
  obtain ⟨source, origin, found, report⟩ := blocked_of_timed calm timed
  refine ⟨source, found, fun tid => ?_⟩
  simp only [← Event.blocks_iff]
  refine ⟨exists_blocked_iff _ tid, ?_⟩
  rw [← exists_mem_report_iff, StackSource.blockedPeriods, report]
  simp [BlockedReport.rebase, BlockedPeriod.rebase]

/-- A record of a switch whose line stops after the command of the thread before. -/
def cutSwitch : List UInt8 :=
  [0x61, 0x20, 0x31, 0x20, 0x5B, 0x30, 0x5D, 0x20, 0x32, 0x3A, 0x20, 0x73, 0x3A, 0x20, 0x73, 0x63,
    0x68, 0x65, 0x64, 0x5F, 0x73, 0x77, 0x69, 0x74, 0x63, 0x68, 0x3A, 0x20, 0x70, 0x3D, 0x61, 0x0A]

def blockedTime : Options := { threadTime := true, windowLength := 0 }

theorem recordsOf_cutSwitch : recordsOf blockedTime (Reader.ofBytes ⟨cutSwitch.toArray⟩) =
    Record.ofText blockedTime.accepts cutSwitch := by
  have short : cutSwitch.length < max blockedTime.windowLength leastCapacity - historyLength := by
    decide
  rw [recordsOf, Feed.records, (chunks_of_short (by decide) short).1, List.flatMap_singleton]

theorem blocked_threads_cutSwitch :
    (Reader.ofBytes ⟨cutSwitch.toArray⟩).Faultless ∧ blockedTime.threadTime = true ∧
      ∃ source, read blockedTime (Reader.ofBytes ⟨cutSwitch.toArray⟩) = .ok source ∧
        ∃ blocked ∈ source.blockedPeriods, blocked.tid = Cursor.absent := by
  have calm := Reader.faultless_ofBytes ⟨cutSwitch.toArray⟩
  have timed : blockedTime.threadTime = true := rfl
  obtain ⟨source, found, threads⟩ := blocked_threads calm timed
  refine ⟨calm, timed, source, found, (threads Cursor.absent).2.mpr ?_⟩
  have some : ((Record.ofText blockedTime.accepts cutSwitch).filterMap Record.event?).any
      (·.blocks Cursor.absent) = true := by decide +kernel
  simp only [← Event.blocks_iff, observed, recordsOf_cutSwitch]
  exact List.any_eq_true.mp some

end Session

end ProfileTrace
