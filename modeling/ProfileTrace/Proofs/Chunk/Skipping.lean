import ProfileTrace.Proofs.Chunk.Coverage
import ProfileTrace.Proofs.Cursor.Lockstep

/-! What a cut leaves out. After a cut behind a line at least one byte of the record is skipped.
A header that no line feed ends in the window is cut where the window ends, even if the record
ends there as well; then nothing of it is skipped, and still it is marked as cut short. -/

namespace ProfileTrace
open Cursor
open Record (afterRecord)
open StreamCursor (Stands)

/-- A feed that some of its chunks were taken from. -/
inductive Feed.After (first : Feed) : Feed → Prop where
  | start : After first first
  | next {feed after : Feed} {chunk : Chunk} (before : After first feed)
      (found : feed.next = (some chunk, after)) : After first after

theorem Feed.After.reads {content : List UInt8} {capacity : Nat} {first feed : Feed}
    (reached : first.After feed) (reads : Feed.Reads content capacity first) :
    Feed.Reads content capacity feed := by
  induction reached with
  | start => exact reads
  | next before found ih => exact (ih.next found).1

theorem not_endsRecord_of_going {rest : List UInt8}
    (going : rest.head?.any (fun b => !Cut.isLineBreak b) = true) : ¬EndsRecord rest := by
  intro ends
  cases rest with
  | nil => simp at going
  | cons b rest =>
    obtain ⟨rfl, -⟩ := ends
    simp [Cut.isLineBreak] at going

theorem IsFirstEnd.eq_zero_iff {text : List UInt8} {count : Nat} (firstEnd : IsFirstEnd text count) :
    count = 0 ↔ EndsRecord text := by
  constructor
  · rintro rfl
    exact firstEnd.1
  · intro ends
    exact Nat.le_zero.mp (firstEnd.2 (show EndsRecord (text.drop 0) from ends))

/-- The cut is inside the first line with text, in a full window, and the record ends there. -/
structure ShortCut.LeavesNothing (capacity : Nat) (cut : ShortCut) : Prop where
  long : capacity - historyLength ≤ cut.kept.length
  noFeed : 0x0A ∉ cut.kept.dropWhile Cut.isLineBreak
  ends : EndsRecord cut.rest

theorem Handout.exists_skipped {capacity : Nat} {ahead bytes left : List UInt8} {cut : ShortCut}
    (handout : Handout capacity ahead bytes (some cut) left) :
    ∃ skipped, cut.rest = skipped ++ left ∧ IsFirstEnd cut.rest skipped.length ∧
      (skipped = [] ↔ cut.LeavesNothing capacity) := by
  obtain ⟨-, -, left_eq⟩ := handout.of_cut
  obtain ⟨count, inside, skipped, firstEnd⟩ := exists_afterRecord cut.rest
  have size : (cut.rest.take count).length = count := List.length_take_of_le inside
  have none : cut.rest.take count = [] ↔ EndsRecord cut.rest := by
    rw [← List.length_eq_zero_iff, size, firstEnd.eq_zero_iff]
  refine ⟨cut.rest.take count, ?_, by rwa [size], none.trans ⟨fun ends => ?_, fun all => all.ends⟩⟩
  · rw [left_eq, skipped, List.take_append_drop]
  cases handout with
  | afterLine whole ended header unbroken going =>
    exact absurd ends (not_endsRecord_of_going going)
  | insideLine whole long noFeed unbroken => exact ⟨long, noFeed, ends⟩

/-- A chunk that is marked as cut short keeps the first part of a record, and what is skipped is the
rest of it. This is nothing just when the window ends inside the first line with text and at the
end of the record. -/
theorem skipped_of_truncated {reader : Reader} (calm : reader.Faultless) {windowLength : Nat}
    {feed after : Feed} (reached : (Feed.ofReader reader windowLength).After feed) {chunk : Chunk}
    (found : feed.next = (some chunk, after)) (short : chunk.truncated = true) :
    ∃ kept skipped, chunk.bytes = Chunk.markCut kept ∧
      feed.ahead reader.content = kept ++ skipped ++ after.ahead reader.content ∧
      IsFirstEnd (skipped ++ after.ahead reader.content) skipped.length ∧
      (skipped = [] ↔ ShortCut.LeavesNothing (max windowLength leastCapacity)
        ⟨kept, skipped ++ after.ahead reader.content⟩) := by
  obtain ⟨-, truncated, handout⟩ := (reached.reads (Feed.reads_ofReader calm windowLength)).next found
  cases here : feed.cut? with
  | none => simp [here, short] at truncated
  | some cut =>
    rw [here] at handout
    obtain ⟨whole, bytes, -⟩ := handout.of_cut
    obtain ⟨skipped, rest, firstEnd, none⟩ := handout.exists_skipped
    obtain ⟨kept, cutRest⟩ := cut
    simp only at whole bytes rest firstEnd
    subst rest
    exact ⟨kept, skipped, bytes, by rw [whole, List.append_assoc], firstEnd, none⟩

/-! ### Lines that fill a window -/

theorem StreamCursor.unread_fillWindow_ofReader {reader : Reader} (calm : reader.Faultless)
    {capacity : Nat} (least : leastCapacity ≤ capacity) (long : capacity < reader.ahead.length) :
    (ofReader reader capacity).fillWindow.ended = false ∧
      (ofReader reader capacity).fillWindow.unread = reader.ahead.take capacity := by
  have stands := stands_ofReader calm capacity
  rw [Nat.max_eq_left least] at stands
  have place : (ofReader reader capacity).fillWindow.position = reader.start := by
    rw [position_fillWindow, position_ofReader calm]
  obtain ⟨filled, -⟩ := stands.fillWindow
  have fits := (fits_ofReader reader capacity 0).fillWindow
  rw [Fits, held, filled.size] at fits
  have fetched := filled.fetched
  rw [place] at fetched
  have going : (ofReader reader capacity).fillWindow.ended = false := by
    refine Bool.eq_false_iff.mpr fun ended => ?_
    have all := congrArg List.length (filled.all ended)
    rw [place] at all
    change _ = reader.ahead.length at all
    omega
  have full : capacity ≤ (ofReader reader capacity).fillWindow.unread.length := by
    have unfilled : ¬(ofReader reader capacity).ended = true := by
      intro ended
      rw [fillWindow, if_pos ended] at going
      simp [ended] at going
    rw [fillWindow, if_neg unfilled] at going ⊢
    have enough : (ofReader reader capacity).capacity ≤
        (fillTo (ofReader reader capacity).capacity (ofReader reader capacity).slide).held :=
      (stands.reflects.slide.fillTo (Nat.le_refl _)).2 going
    have noHistory : (ofReader reader capacity).slide.history = [] := by
      simp only [slide, history_ofReader, List.take_nil]
    rw [held, history_fillTo, noHistory, List.length_nil, Nat.zero_add] at enough
    have same := stands.size
    omega
  refine ⟨going, ?_⟩
  have size : (ofReader reader capacity).fillWindow.unread.length = capacity := by omega
  have first := List.prefix_iff_eq_take.mp fetched
  rwa [size] at first

theorem Cut.ofWindow_of_noFeed {window : List UInt8} (noFeed : 0x0A ∉ window) :
    ofWindow window = insideLine window.length := by
  have explained := explains_ofWindow window
  generalize ofWindow window = cut at explained
  cases explained with
  | clean whole ended begins =>
    exact absurd (whole ▸ List.mem_append_left _ (List.mem_of_getLast? ended)) noFeed
  | afterLine whole ended header unbroken =>
    exact absurd (whole ▸ List.mem_append_left _ (List.mem_of_getLast? ended)) noFeed
  | insideLine => rfl

theorem Feed.next_of_line {reader : Reader} (calm : reader.Faultless) {windowLength : Nat}
    {line rest : List UInt8} (whole : reader.ahead = line ++ rest)
    (fills : line.length = max windowLength leastCapacity) (more : rest ≠ [])
    (noFeed : 0x0A ∉ line) :
    ∃ chunk after, (ofReader reader windowLength).next = (some chunk, after) ∧
      chunk.truncated = true ∧ chunk.bytes = Chunk.markCut line ∧
      after.ahead reader.content = afterRecord rest := by
  have size := congrArg List.length whole
  have following := List.length_pos_iff.mpr more
  have some : line ≠ [] := by
    have least : 0 < leastCapacity := by decide
    rw [← List.length_pos_iff]
    omega
  rw [List.length_append] at size
  obtain ⟨going, window⟩ := StreamCursor.unread_fillWindow_ofReader calm
    (Nat.le_max_right windowLength leastCapacity) (by omega)
  rw [whole, ← fills, List.take_left, fills] at window
  obtain ⟨filled, -⟩ := (reads_ofReader calm windowLength).stands.fillWindow
  change Stands _ _ (StreamCursor.ofReader reader (max windowLength leastCapacity)).fillWindow
    at filled
  have all := window.trans (List.append_nil line).symm
  obtain ⟨-, -, there, place⟩ := part_of_window filled all
  obtain ⟨-, skipped⟩ := drop_skipToRecordEnd there
  have left : reader.content.drop ((StreamCursor.ofReader reader
      (max windowLength leastCapacity)).fillWindow.consume line.length).position = rest := by
    rw [place, StreamCursor.position_fillWindow, StreamCursor.position_ofReader calm,
      ← List.drop_drop]
    change reader.ahead.drop line.length = rest
    rw [whole, List.drop_left]
  rw [left] at skipped
  have large : ¬line.length ≤ max windowLength leastCapacity / 4 := by
    have least : 0 < leastCapacity := by decide
    omega
  have found : (ofReader reader windowLength).next =
      (Option.some ⟨0, Chunk.markCut line, true⟩,
        { ofReader reader windowLength with
          cursor := skipToRecordEnd ((StreamCursor.ofReader reader
            (max windowLength leastCapacity)).fillWindow.consume line.length)
          nextIndex := 1 }) := by
    simp only [Feed.next, ofReader, window, going, Cut.ofWindow_of_noFeed noFeed, takeCut,
      Cut.length, List.take_length, List.isEmpty_iff, some, large, decide_false,
      Bool.or_self, Bool.false_eq_true, if_false]
  exact ⟨_, _, found, rfl, rfl, skipped⟩

/-- A header that fills the smallest window and ends its record. -/
def fullHeader : List UInt8 := List.replicate 512 0x61

def slowFullHeader : Reader := .slow (fullHeader ++ [0x0A, 0x0A]) 0

theorem skipped_of_truncated_fullHeader :
    slowFullHeader.Faultless ∧ ∃ chunk after,
      (Feed.ofReader slowFullHeader 0).next = (some chunk, after) ∧ chunk.truncated = true ∧
      chunk.bytes = Chunk.markCut fullHeader ∧
      slowFullHeader.content = fullHeader ++ after.ahead slowFullHeader.content ∧
      ∃ kept skipped, chunk.bytes = Chunk.markCut kept ∧
        (Feed.ofReader slowFullHeader 0).ahead slowFullHeader.content =
          kept ++ skipped ++ after.ahead slowFullHeader.content ∧
        IsFirstEnd (skipped ++ after.ahead slowFullHeader.content) skipped.length ∧
        (skipped = [] ↔ ShortCut.LeavesNothing 512
          ⟨kept, skipped ++ after.ahead slowFullHeader.content⟩) := by
  have calm : slowFullHeader.Faultless := Reader.faultless_slow _ _
  have noFeed : 0x0A ∉ fullHeader := fun among => by
    simpa using List.eq_of_mem_replicate among
  have whole : slowFullHeader.ahead = fullHeader ++ [0x0A, 0x0A] := rfl
  have fills : fullHeader.length = max 0 leastCapacity := List.length_replicate ..
  obtain ⟨chunk, after, found, short, bytes, left⟩ :=
    Feed.next_of_line calm whole fills (List.cons_ne_nil _ _) noFeed
  have nothing : afterRecord [0x0A, 0x0A] = [0x0A, 0x0A] := rfl
  refine ⟨calm, chunk, after, found, short, bytes, ?_, skipped_of_truncated calm .start found short⟩
  rw [left, nothing]
  rfl

end ProfileTrace
