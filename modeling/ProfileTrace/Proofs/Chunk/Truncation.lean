import ProfileTrace.Proofs.Chunk.EventCount

/-! Chunks of a trace that is written well, with headers that a window holds. A cut keeps each
record's event and takes only frames from the end of a stack: it is never inside a header, and
what is left of the record is skipped up to its empty line. -/

namespace ProfileTrace
open Record (eventsOfText eventsOfText_eq layoutsOf)

/-- The events of the chunk with a stack cut short: its last one if the chunk is marked so, and
no other. -/
def Chunk.CutsLast (chunk : Chunk) : Prop :=
  ∃ uncut, (eventsOfText chunk.bytes).map Event.truncated =
    List.replicate uncut false ++ if chunk.truncated then [true] else []

theorem map_truncated_event {records : List RecordLayout}
    (wellFormed : ∀ record ∈ records, record.WellFormed) :
    (records.map RecordLayout.event).map Event.truncated = List.replicate records.length false := by
  rw [List.map_map]
  apply List.eq_replicate_iff.mpr
  refine ⟨by simp, ?_⟩
  intro truncated among
  obtain ⟨record, inside, rfl⟩ := List.mem_map.mp among
  exact (wellFormed record inside).truncated_event

theorem forall₂_isPartOf_self (records : List RecordLayout) :
    List.Forall₂ Event.IsPartOf (records.map RecordLayout.event)
      (records.map RecordLayout.event) := by
  apply List.forall₂_same.mpr
  intro event among
  obtain ⟨record, -, rfl⟩ := List.mem_map.mp among
  exact Headline.isPartOf_self _ _

/-- One chunk of a written text holds the next of its records, the last of them cut short if the
chunk is, and leaves a written text of the others. -/
theorem Handout.written {capacity : Nat} (least : leastCapacity ≤ capacity)
    {ahead left : List UInt8} {chunk : Chunk} {cut? : Option ShortCut}
    (handout : Handout capacity ahead chunk.bytes cut? left)
    (truncated : chunk.truncated = cut?.isSome) {records : List RecordLayout}
    (written : Written capacity records ahead) :
    ∃ here later, records = here ++ later ∧ Written capacity later left ∧
      List.Forall₂ Event.IsPartOf (eventsOfText chunk.bytes) (here.map RecordLayout.event) ∧
      chunk.CutsLast := by
  obtain ⟨index, bytes, flag⟩ := chunk
  obtain rfl : flag = cut?.isSome := truncated
  simp only at handout
  have all := written.layoutsOf_eq
  unfold Chunk.CutsLast
  cases cut? with
  | none =>
    obtain ⟨later, others⟩ : ∃ later, Written capacity later left := by
      cases handout with
      | clean whole ended begins => exact written.of_clean whole ended begins
    rw [handout.layoutsOf_of_clean, others.layoutsOf_eq] at all
    refine ⟨layoutsOf bytes, later, all.symm, others, ?_, (layoutsOf bytes).length, ?_⟩
    · rw [eventsOfText_eq]
      exact forall₂_isPartOf_self _
    · have wellFormed : ∀ record ∈ layoutsOf bytes, record.WellFormed := fun record among =>
        written.wellFormed record (all ▸ List.mem_append_left later among)
      rw [eventsOfText_eq, map_truncated_event wellFormed]
      simp
  | some cut =>
    cases handout with
    | @afterLine kept rest whole ended header unbroken going =>
      obtain ⟨before, rfl⟩ := List.getLast?_eq_some_iff.mp ended
      have joined : ahead = before ++ 0x0A :: rest := by simp [whole]
      obtain ⟨some, goes, later, others⟩ := written.of_afterLine joined header unbroken going
      obtain ⟨uncut, last, more, marked, parts⟩ := Record.layoutsOf_cut_afterLine
        (Record.endsInside_of_unbroken unbroken some) goes
      rw [joined, parts, others.layoutsOf_eq] at all
      obtain ⟨short, part⟩ := RecordLayout.isPartOf_cut last.header last.lines more
      refine ⟨uncut ++ [{ last with lines := last.lines ++ more }], later, by simp [← all], others,
        ?_, uncut.length, ?_⟩
      · rw [eventsOfText_eq, marked, List.map_append, List.map_append]
        exact List.rel_append (forall₂_isPartOf_self uncut) (.cons part .nil)
      · have wellFormed : ∀ record ∈ uncut, record.WellFormed := fun record among =>
          written.wellFormed record (all ▸ List.mem_append_left _ among)
        rw [eventsOfText_eq, marked, List.map_append, List.map_append,
          map_truncated_event wellFormed]
        simp [short]
    | insideLine whole long noFeed unbroken =>
      exact absurd (written.not_insideLine least whole long) noFeed

theorem Handouts.written {capacity : Nat} (least : leastCapacity ≤ capacity) {ahead : List UInt8}
    {chunks : List Chunk} {cuts : List ShortCut} (run : Handouts capacity ahead chunks cuts)
    {records : List RecordLayout} (written : Written capacity records ahead) :
    List.Forall₂ Event.IsPartOf (chunks.flatMap fun chunk => eventsOfText chunk.bytes)
        (records.map RecordLayout.event) ∧
      ∀ chunk ∈ chunks, chunk.CutsLast := by
  -- what is left after each chunk is again a written text, of the records that are left
  induction run generalizing records with
  | done =>
    have none := written.layoutsOf_eq
    rw [Record.layoutsOf_nil] at none
    rw [← none]
    exact ⟨.nil, by simp⟩
  | next handout truncated others ih =>
    obtain ⟨here, later, rfl, left, parts, marked⟩ := handout.written least truncated written
    obtain ⟨more, rest⟩ := ih left
    rw [List.flatMap_cons, List.map_append]
    exact ⟨List.rel_append parts more, List.forall_mem_cons.mpr ⟨marked, rest⟩⟩

/-- Cutting takes nothing but frames from the ends of stacks. When a source that never fails holds
records as they are written, without a byte order mark, and each header line fits into a window
with the bytes that are kept behind it, the events of the chunks are those of the whole source
one for one, each whole or with its stack cut short, and just the last event of each chunk that
is marked so is cut short. -/
theorem chunked_events_of_wellFormed {reader : Reader} (calm : reader.Faultless)
    (windowLength : Nat) {records : List RecordLayout}
    (wellFormed : ∀ record ∈ records, record.WellFormed)
    (short : ∀ record ∈ records, record.header.length + 1 ≤ max windowLength leastCapacity - 258)
    (text : reader.ahead = records.flatMap RecordLayout.bytes)
    (noMark : reader.ahead.take 3 ≠ Record.byteOrderMark) :
    List.Forall₂ Event.IsPartOf
        ((Feed.ofReader reader windowLength).chunks.1.flatMap fun chunk => eventsOfText chunk.bytes)
        (eventsOfText reader.ahead) ∧
      ∀ chunk ∈ (Feed.ofReader reader windowLength).chunks.1, chunk.CutsLast := by
  have run := (Feed.reads_ofReader calm windowLength).handouts.1
  rw [Feed.ahead_ofReader calm] at run
  have written := written_flatMap wellFormed short text noMark
  rw [eventsOfText_eq reader.ahead, written.layoutsOf_eq]
  exact run.written (Nat.le_max_right _ _) written

theorem chunked_events_of_wellFormed_deepRecord :
    (Reader.ofBytes ⟨deepRecord.bytes.toArray⟩).Faultless ∧ deepRecord.WellFormed ∧
      deepRecord.header.length + 1 ≤ max 0 leastCapacity - 258 ∧
      deepRecord.bytes.take 3 ≠ Record.byteOrderMark ∧
      List.Forall₂ Event.IsPartOf
        ((Feed.ofReader (Reader.ofBytes ⟨deepRecord.bytes.toArray⟩) 0).chunks.1.flatMap fun chunk =>
          eventsOfText chunk.bytes)
        (eventsOfText deepRecord.bytes) := by
  have calm := Reader.faultless_ofBytes ⟨deepRecord.bytes.toArray⟩
  have ahead : (Reader.ofBytes ⟨deepRecord.bytes.toArray⟩).ahead = deepRecord.bytes := rfl
  have fits : deepRecord.header.length + 1 ≤ max 0 leastCapacity - 258 := by decide
  have noMark : deepRecord.bytes.take 3 ≠ Record.byteOrderMark := by
    have first : deepRecord.bytes.take 3 = [0x61, 0x20, 0x31] := rfl
    rw [first]
    decide
  have each : ∀ record ∈ [deepRecord], record.WellFormed := by
    simpa using wellFormed_deepRecord
  have parts := chunked_events_of_wellFormed calm 0 each (by simpa using fits) (by simp [ahead])
    (by rwa [ahead])
  exact ⟨calm, wellFormed_deepRecord, fits, noMark, ahead ▸ parts.1⟩

end ProfileTrace
