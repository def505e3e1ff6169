import ProfileTrace.Proofs.Chunk.Spacing
import ProfileTrace.Proofs.Record.Counts

/-! Reading a trace chunk by chunk. As long as no chunk is cut short, the records of the
chunks are those of the whole trace, whatever its bytes are. -/

namespace ProfileTrace
open Record (layoutsOf ofText ofText_eq)

theorem Handout.layoutsOf_of_clean {capacity : Nat} {ahead bytes left : List UInt8}
    (handout : Handout capacity ahead bytes none left) :
    layoutsOf ahead = layoutsOf bytes ++ layoutsOf left := by
  cases handout with
  | clean whole ended begins =>
    rw [whole]
    rcases ended with rfl | ended
    · rw [List.append_nil, Record.layoutsOf_nil, List.append_nil]
    · exact Record.layoutsOf_append ended begins

theorem Handouts.flatMap_ofText {capacity : Nat} {ahead : List UInt8} {chunks : List Chunk}
    {cuts : List ShortCut} (run : Handouts capacity ahead chunks cuts)
    (uncut : ∀ chunk ∈ chunks, chunk.truncated = false) (accepts : String → Bool) :
    chunks.flatMap (fun chunk => ofText accepts chunk.bytes) = ofText accepts ahead := by
  simp only [ofText_eq, ← List.map_flatMap]
  congr 1
  induction run with
  | done => exact Record.layoutsOf_nil.symm
  | @next ahead left chunk cut? chunks cuts handout truncated others ih =>
    have first := uncut chunk List.mem_cons_self
    rw [truncated] at first
    obtain rfl : cut? = none := by simpa using first
    rw [List.flatMap_cons, ih fun chunk among => uncut chunk (List.mem_cons_of_mem _ among),
      handout.layoutsOf_of_clean]

/-- Chunked reading refines reading in a single pass: when no chunk of a source that never fails
is cut short, the records of the chunks are those of the whole source in their order, and the
counts of the chunks merge to its counts. -/
theorem chunked_eq_singlePass {reader : Reader} (calm : reader.Faultless) (windowLength : Nat)
    (uncut : ∀ chunk ∈ (Feed.ofReader reader windowLength).chunks.1, chunk.truncated = false)
    (accepts : String → Bool) :
    (Feed.ofReader reader windowLength).chunks.1.flatMap
        (fun chunk => ofText accepts chunk.bytes) = ofText accepts reader.ahead ∧
      ((Feed.ofReader reader windowLength).chunks.1.map fun chunk =>
          Record.countAll (ofText accepts chunk.bytes)).foldl RecordCounts.merge {} =
        Record.countAll (ofText accepts reader.ahead) := by
  have run := (Feed.reads_ofReader calm windowLength).handouts.1
  rw [Feed.ahead_ofReader calm] at run
  have same := run.flatMap_ofText uncut accepts
  refine ⟨same, ?_⟩
  have counted := Record.countAll_flatten
    ((Feed.ofReader reader windowLength).chunks.1.map fun chunk => ofText accepts chunk.bytes)
  rw [List.map_map] at counted
  rw [← same, List.flatMap_def]
  exact counted

theorem chunked_eq_singlePass_relay :
    (Reader.ofBytes ⟨relayText.toArray⟩).Faultless ∧
      1 < (Feed.ofReader (Reader.ofBytes ⟨relayText.toArray⟩) 0).chunks.1.length ∧
      (∀ chunk ∈ (Feed.ofReader (Reader.ofBytes ⟨relayText.toArray⟩) 0).chunks.1,
        chunk.truncated = false) ∧
      (Feed.ofReader (Reader.ofBytes ⟨relayText.toArray⟩) 0).chunks.1.flatMap
          (fun chunk => ofText (· != "cycles") chunk.bytes) =
        ofText (· != "cycles") relayText := by
  have calm := Reader.faultless_ofBytes ⟨relayText.toArray⟩
  obtain ⟨several, uncut⟩ := chunks_relay
  exact ⟨calm, several, uncut, (chunked_eq_singlePass calm 0 uncut (· != "cycles")).1⟩

theorem chunks_of_short {text : List UInt8} (some : text ≠ []) {windowLength : Nat}
    (short : text.length < max windowLength leastCapacity - historyLength) :
    (Feed.ofReader (Reader.ofBytes ⟨text.toArray⟩) windowLength).chunks.1 = [⟨0, text, false⟩] ∧
      (Feed.ofReader (Reader.ofBytes ⟨text.toArray⟩) windowLength).cuts = [] := by
  have calm := Reader.faultless_ofBytes ⟨text.toArray⟩
  have ahead : (Feed.ofReader (Reader.ofBytes ⟨text.toArray⟩) windowLength).ahead
      (Reader.ofBytes ⟨text.toArray⟩).content = text := by
    rw [Feed.ahead_ofReader calm]
    rfl
  have reads := Feed.reads_ofReader calm windowLength
  obtain ⟨chunks, cuts⟩ := reads.chunks_of_short (by rwa [ahead]) (by rwa [ahead])
  rw [ahead] at chunks
  exact ⟨chunks, cuts⟩

end ProfileTrace
