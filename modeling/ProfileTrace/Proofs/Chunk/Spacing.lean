import ProfileTrace.Proofs.Chunk.Coverage
import ProfileTrace.Proofs.Record.WellFormed

/-! Traces in which records end often. Where a record is cut no record ends in a whole window, so
that nothing is cut of records that are shorter than a window. -/

namespace ProfileTrace
open Record (Unbroken)

theorem startsAtRecordEnd_take {count : Nat} (two : 2 ≤ count) (text : List UInt8) :
    startsAtRecordEnd (text.take count) = startsAtRecordEnd text := by
  obtain ⟨more, rfl⟩ := Nat.exists_eq_add_of_le' two
  match text with
  | [] => rfl
  | [_] => rfl
  | _ :: _ :: _ => rfl

theorem isRecordEnd_take {count index : Nat} (inside : index + 2 ≤ count) (text : List UInt8) :
    isRecordEnd (text.take count) index = isRecordEnd text index := by
  rw [isRecordEnd, List.drop_take, startsAtRecordEnd_take (by omega), isRecordEnd]

/-- A record ends in every stretch of this length, and not only at its first byte. -/
def Spaced (length : Nat) (text : List UInt8) : Prop :=
  ∀ offset, offset + length ≤ text.length → ¬Unbroken ((text.drop offset).take length)

namespace Feed
variable {content stream : List UInt8} {capacity offset : Nat} {feed after : Feed}

theorem Reads.unbroken_of_cut (reads : Reads content capacity feed) {cut : ShortCut}
    (short : feed.cut? = some cut) :
    capacity - historyLength ≤ (feed.ahead content).length ∧
      Unbroken ((feed.ahead content).take (capacity - historyLength)) := by
  obtain ⟨filled, enough⟩ := reads.stands.fillWindow
  have place : feed.cursor.fillWindow.position = feed.cursor.position :=
    StreamCursor.position_fillWindow _
  have fetched := filled.fetched
  rw [place] at fetched
  obtain ⟨left, whole⟩ : feed.cursor.fillWindow.unread <+: feed.ahead content := fetched
  have explained := Cut.explains_ofWindow feed.cursor.fillWindow.unread
  unfold cut? at short
  simp only at short
  split at short
  next => simp at short
  next going =>
    simp only [Bool.or_eq_true, decide_eq_true_eq, not_or, Bool.not_eq_true] at going
    have long := enough going.2
    rw [← whole, List.length_append, List.take_append_of_le_length long]
    refine ⟨Nat.le_add_right_of_le long, ?_⟩
    have unbroken : Unbroken feed.cursor.fillWindow.unread := by
      generalize Cut.ofWindow feed.cursor.fillWindow.unread = found at explained short
      cases explained with
      | clean whole ended begins => simp [takeCut] at short
      | afterLine whole ended header unbroken => exact unbroken
      | insideLine noFeed unbroken => exact unbroken
    apply unbroken_of_append
    rwa [List.take_append_drop]

theorem Reads.uncut_of_spaced (spaced : Spaced (capacity - historyLength) stream)
    (reads : Reads content capacity feed) (fits : feed.cursor.Fits)
    (inside : offset ≤ stream.length) (ahead : feed.ahead content = stream.drop offset)
    {chunks : List Chunk} (gives : feed.Gives chunks) :
    ∀ chunk ∈ chunks, chunk.truncated = false := by
  induction gives generalizing offset with
  | none found => simp
  | @some feed after chunk chunks found others ih =>
    obtain ⟨stop, next, part, left⟩ := reads.isPart fits inside ahead found
    obtain ⟨later, truncated, -⟩ := reads.next found
    have whole : chunk.truncated = false := by
      rw [truncated, Option.isSome_eq_false_iff, Option.isNone_iff_eq_none,
        Option.eq_none_iff_forall_ne_some]
      intro cut short
      obtain ⟨long, unbroken⟩ := reads.unbroken_of_cut short
      rw [ahead, List.length_drop] at long
      rw [ahead] at unbroken
      have least := reads.stands.least
      simp only [leastCapacity, historyLength] at least long
      exact spaced offset (by simp only [historyLength]; omega) unbroken
    exact List.forall_mem_cons.mpr ⟨whole, ih later (fits_of_next fits found) part.inside.2 left⟩

end Feed

namespace RecordLayout

theorem exists_bytes (record : RecordLayout) : ∃ front, record.bytes = front ++ [0x0A, 0x0A] := by
  rcases List.eq_nil_or_concat' record.lines with none | ⟨lines, last, concat⟩
  · exact ⟨record.header, by rw [bytes, none]; rfl⟩
  · refine ⟨record.header ++ 0x0A :: (lines.flatMap (· ++ [0x0A]) ++ last), ?_⟩
    rw [bytes, concat]
    simp

theorem exists_recordEnd {records : List RecordLayout} {length : Nat} (some : 0 < length)
    (short : ∀ record ∈ records, record.bytes.length + 2 ≤ length) {offset : Nat}
    (inside : offset + length ≤ (records.flatMap bytes).length) :
    ∃ index, 1 ≤ index ∧ index + 2 ≤ length ∧
      isRecordEnd ((records.flatMap bytes).drop offset) index = true := by
  induction records generalizing offset with
  | nil => simp at inside; omega
  | cons record records ih =>
    have first := short record List.mem_cons_self
    have others := fun next among => short next (List.mem_cons_of_mem _ among)
    obtain ⟨front, whole⟩ := record.exists_bytes
    have size := congrArg List.length whole
    simp only [List.length_append, List.length_cons, List.length_nil] at size
    rw [List.flatMap_cons, List.length_append] at inside
    by_cases behind : record.bytes.length ≤ offset
    · obtain ⟨index, positive, within, ends⟩ : ∃ index, 1 ≤ index ∧ index + 2 ≤ length ∧
          isRecordEnd ((records.flatMap bytes).drop (offset - record.bytes.length)) index = true :=
        ih others (by omega)
      refine ⟨index, positive, within, ?_⟩
      rwa [List.flatMap_cons, List.drop_append, List.drop_eq_nil_of_le behind, List.nil_append]
    · by_cases before : offset < front.length
      · refine ⟨front.length - offset, by omega, by omega, ?_⟩
        rw [isRecordEnd, List.drop_drop, Nat.add_sub_cancel' before.le, List.flatMap_cons, whole,
          List.append_assoc, List.drop_left]
        rfl
      · -- the stretch begins with the last bytes of a record, and the next one ends in it
        cases records with
        | nil => simp at inside; omega
        | cons next records =>
          have second := others next List.mem_cons_self
          obtain ⟨more, further⟩ := next.exists_bytes
          have length := congrArg List.length further
          simp only [List.length_append, List.length_cons, List.length_nil] at length
          refine ⟨record.bytes.length + more.length - offset, by omega, by omega, ?_⟩
          rw [isRecordEnd, List.drop_drop, Nat.add_sub_cancel' (by omega), List.flatMap_cons,
            List.flatMap_cons, further, ← List.drop_drop, List.drop_left, List.append_assoc,
            List.drop_left]
          rfl

theorem spaced_flatMap_bytes {records : List RecordLayout} {length : Nat} (some : 0 < length)
    (short : ∀ record ∈ records, record.bytes.length + 2 ≤ length) :
    Spaced length (records.flatMap bytes) := by
  intro offset inside unbroken
  obtain ⟨index, positive, within, ends⟩ := exists_recordEnd some short inside
  have none := unbroken index positive
  rw [isRecordEnd_take within, ends] at none
  cases none

end RecordLayout

/-- No record is cut of a source that never fails and holds records shorter than a window. -/
theorem uncut_of_short {reader : Reader} (calm : reader.Faultless) (windowLength : Nat)
    {records : List RecordLayout} (text : reader.ahead = records.flatMap RecordLayout.bytes)
    (short : ∀ record ∈ records,
      record.bytes.length + 2 ≤ max windowLength leastCapacity - historyLength) :
    ∀ chunk ∈ (Feed.ofReader reader windowLength).chunks.1, chunk.truncated = false := by
  have some : 0 < max windowLength leastCapacity - historyLength := by
    simp only [leastCapacity, historyLength]
    omega
  have spaced := RecordLayout.spaced_flatMap_bytes some short
  rw [← text] at spaced
  exact (Feed.reads_ofReader calm windowLength).uncut_of_spaced spaced
    (StreamCursor.fits_ofReader reader _ _) (Nat.zero_le _) (Feed.ahead_ofReader calm windowLength)
    (Feed.gives_chunks _)

theorem Chunk.IsPart.isRecordEnd {stream : List UInt8} {capacity start stop next : Nat}
    {chunk : Chunk} (part : chunk.IsPart stream capacity start stop next)
    (whole : chunk.truncated = false) (more : stop < stream.length) :
    isRecordEnd stream (stop - 1) = true := by
  obtain ⟨last, begins⟩ := part.ended whole more
  have some := part.some
  have here : stop - 1 < stream.length := by omega
  have next : stop - 1 + 1 = stop := by omega
  rw [(part.whole whole).1, List.extract_eq_take_drop, List.getLast?_take, List.getElem?_drop,
    if_neg (by omega), show start + (stop - start - 1) = stop - 1 by omega,
    List.getElem?_eq_getElem here] at last
  have feed : stream[stop - 1] = 0x0A := by simpa using last
  rw [List.getElem?_eq_getElem more] at begins
  rw [ProfileTrace.isRecordEnd, List.drop_eq_getElem_cons here,
    List.drop_eq_getElem_cons (by omega)]
  simp only [next]
  simpa [startsAtRecordEnd, Cut.isLineBreak, feed] using begins

theorem Chunk.Tiles.exists_truncated {stream : List UInt8} {capacity : Nat} {chunks : List Chunk}
    (tiles : Chunk.Tiles stream capacity 0 chunks) (long : capacity < stream.length)
    (unended : recordEnds (stream.take (capacity + 1)) = []) :
    ∃ chunk ∈ chunks, chunk.truncated = true := by
  generalize zero : 0 = offset at tiles
  cases tiles with
  | done => omega
  | @next _ stop _ _ _ part others =>
    refine ⟨_, List.mem_cons_self, ?_⟩
    by_contra whole
    have some := part.some
    have fits := part.fits
    have ends := part.isRecordEnd (by simpa using whole) (by omega)
    have inside : stop - 1 + 2 ≤ capacity + 1 := by omega
    rw [← isRecordEnd_take inside, ← mem_recordEnds, unended] at ends
    cases ends

/-- A record like `a 1/1 [0] 1.0: cycles:` with a stack. -/
def atWork (command thread cpu second tenth : UInt8) : RecordLayout where
  header := [command, 0x20, thread, 0x2F, thread, 0x20, 0x5B, cpu, 0x5D, 0x20, second, 0x2E, tenth,
    0x3A, 0x20, 0x63, 0x79, 0x63, 0x6C, 0x65, 0x73, 0x3A, 0x20]
  lines := List.replicate 8
    [0x09, 0x31, 0x20, command, 0x3A, 0x3A, 0x77, 0x61, 0x6C, 0x6B, 0x28, 0x29, 0x20, 0x28, 0x61,
     0x70, 0x70, 0x29]

/-- A record like `a 1/1 [0] 1.5: sched: sched_switch: p=a p=1 p=0 p=S => n=b n=2 n=0`. What stands
before an equals sign does not matter. -/
def handingOver (command thread next following second tenth : UInt8) : RecordLayout where
  header := [command, 0x20, thread, 0x2F, thread, 0x20, 0x5B, 0x30, 0x5D, 0x20, second, 0x2E, tenth,
    0x3A, 0x20, 0x73, 0x63, 0x68, 0x65, 0x64, 0x3A, 0x20, 0x73, 0x63, 0x68, 0x65, 0x64, 0x5F, 0x73,
    0x77, 0x69, 0x74, 0x63, 0x68, 0x3A, 0x20, 0x70, 0x3D, command, 0x20, 0x70, 0x3D, thread, 0x20,
    0x70, 0x3D, 0x30, 0x20, 0x70, 0x3D, 0x53, 0x20, 0x3D, 0x3E, 0x20, 0x6E, 0x3D, next, 0x20, 0x6E,
    0x3D, following, 0x20, 0x6E, 0x3D, 0x30]
  lines := []

/-- Two threads hand a processor to each other, while a third works on another one. -/
def relay : List RecordLayout :=
  [atWork 0x61 0x31 0x30 0x31 0x30, handingOver 0x61 0x31 0x62 0x32 0x31 0x35,
    handingOver 0x62 0x32 0x61 0x31 0x32 0x35, atWork 0x61 0x31 0x30 0x33 0x30,
    handingOver 0x61 0x31 0x62 0x32 0x33 0x35, atWork 0x63 0x33 0x31 0x34 0x30]

def relayText : List UInt8 := relay.flatMap RecordLayout.bytes

theorem wellFormed_relay : ∀ record ∈ relay, record.WellFormed := by decide +kernel

theorem chunks_relay :
    1 < (Feed.ofReader (Reader.ofBytes ⟨relayText.toArray⟩) 0).chunks.1.length ∧
      ∀ chunk ∈ (Feed.ofReader (Reader.ofBytes ⟨relayText.toArray⟩) 0).chunks.1,
        chunk.truncated = false := by
  have calm := Reader.faultless_ofBytes ⟨relayText.toArray⟩
  have uncut := uncut_of_short calm 0 rfl (by decide +kernel)
  have long := (Feed.tiles_chunks calm 0).length_le uncut
  have size : (Reader.ofBytes ⟨relayText.toArray⟩).ahead.length = 735 := by decide +kernel
  have capacity : max 0 leastCapacity = 512 := rfl
  rw [size, capacity] at long
  exact ⟨by omega, uncut⟩

end ProfileTrace
