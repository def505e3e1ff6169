import ProfileTrace.Proofs.Chunk.Window
import ProfileTrace.Proofs.Cursor.Window

/-! Handing out the chunks of a source that never fails. A chunk is either a part of the text
ahead that no record reaches over, or the kept part of a record that was cut, after which the
text goes on where that record ends. -/

namespace ProfileTrace
open Cursor
open Record (Unbroken afterRecord rest_skipToRecordEnd)
open StreamCursor (Stands)

structure ShortCut where
  kept : List UInt8
  rest : List UInt8

/-- How one chunk is taken from the text ahead: its bytes, the record that was cut if there is
one, and the text that is left. -/
inductive Handout (capacity : Nat) (ahead : List UInt8) :
    List UInt8 → Option ShortCut → List UInt8 → Prop where
  | clean {kept left : List UInt8} (whole : ahead = kept ++ left)
      (ended : left = [] ∨ kept.getLast? = some 0x0A)
      (begins : left.head?.all Cut.isLineBreak = true) : Handout capacity ahead kept none left
  | afterLine {kept rest : List UInt8} (whole : ahead = kept ++ rest)
      (ended : kept.getLast? = some 0x0A) (header : 0x0A ∈ kept.dropWhile Cut.isLineBreak)
      (unbroken : Unbroken kept) (going : rest.head?.any (fun b => !Cut.isLineBreak b) = true) :
      Handout capacity ahead (Chunk.markCut kept) (some ⟨kept, rest⟩) (afterRecord rest)
  | insideLine {kept rest : List UInt8} (whole : ahead = kept ++ rest)
      (long : capacity - historyLength ≤ kept.length)
      (noFeed : 0x0A ∉ kept.dropWhile Cut.isLineBreak) (unbroken : Unbroken kept) :
      Handout capacity ahead (Chunk.markCut kept) (some ⟨kept, rest⟩) (afterRecord rest)

theorem unbroken_of_append {kept left : List UInt8} (unbroken : Unbroken (kept ++ left)) :
    Unbroken kept := by
  intro index positive
  have here := unbroken index positive
  rw [isRecordEnd] at here ⊢
  by_cases inside : index ≤ kept.length
  · rw [List.drop_append_of_le_length inside] at here
    rcases shape : kept.drop index with _ | ⟨first, _ | ⟨second, rest⟩⟩
    · rfl
    · rfl
    · rw [shape] at here
      exact here
  · rw [List.drop_eq_nil_of_le (by omega)]
    rfl

namespace Feed

structure Reads (content : List UInt8) (capacity : Nat) (feed : Feed) : Prop where
  stands : Stands content capacity feed.cursor
  whole : feed.wholeLength = capacity / 4

def ahead (content : List UInt8) (feed : Feed) : List UInt8 := content.drop feed.cursor.position

def cut? (feed : Feed) : Option ShortCut :=
  let c := feed.cursor.fillWindow
  let cut := Cut.ofWindow c.unread
  if c.unread.length ≤ feed.wholeLength || c.ended then none
  else if (takeCut c cut).2.1 then
    some { kept := c.unread.take cut.length
           rest := c.reader.content.drop (c.position + cut.length) }
  else none

variable {content : List UInt8} {capacity : Nat} {feed after : Feed} {chunk : Chunk}

theorem reads_ofReader {reader : Reader} (calm : reader.Faultless) (windowLength : Nat) :
    Reads reader.content (max windowLength leastCapacity) (ofReader reader windowLength) := by
  have stands := StreamCursor.stands_ofReader calm (max windowLength leastCapacity)
  rw [Nat.max_eq_left (Nat.le_max_right _ _)] at stands
  exact ⟨stands, rfl⟩

theorem ahead_ofReader {reader : Reader} (calm : reader.Faultless) (windowLength : Nat) :
    (ofReader reader windowLength).ahead reader.content = reader.ahead :=
  congrArg reader.content.drop (StreamCursor.position_ofReader calm _ _)

theorem Reads.ended (reads : Reads content capacity feed) (found : feed.next = (none, after)) :
    Reads content capacity after ∧ feed.ahead content = [] ∧ after.ahead content = [] := by
  obtain ⟨filled, enough⟩ := reads.stands.fillWindow
  have place : feed.cursor.fillWindow.position = feed.cursor.position :=
    StreamCursor.position_fillWindow _
  unfold next at found
  simp only at found
  split at found
  next none =>
    have nothing := filled.settled (by simpa using none)
    simp only [Prod.mk.injEq, true_and] at found
    rw [← found]
    refine ⟨⟨filled, reads.whole⟩, ?_, nothing⟩
    rw [ahead, ← place, nothing]
  next => simp at found

theorem atBlankLine_eq {c : StreamCursor} (stands : Stands content capacity c) :
    atBlankLine c = (content.drop c.position).head?.all Cut.isLineBreak := by
  rw [← stands.head_eq]
  unfold atBlankLine StreamCursor.atEnd StreamCursor.current
  cases c.unread <;> simp

theorem drop_skipToRecordEnd {c : StreamCursor} (stands : Stands content capacity c) :
    Stands content capacity (skipToRecordEnd c) ∧
      content.drop (skipToRecordEnd c).position = afterRecord (content.drop c.position) := by
  obtain ⟨there, same⟩ := stands.skipToRecordEnd
  refine ⟨there, ?_⟩
  rw [← rest_skipToRecordEnd (content.drop c.position) c.position]
  exact congrArg TextCursor.rest same

theorem Reads.next_of_nil (reads : Reads content capacity feed)
    (nothing : feed.ahead content = []) : ∃ after, feed.next = (none, after) := by
  have filled := reads.stands.fillWindow.1.fetched
  rw [StreamCursor.position_fillWindow] at filled
  have none : feed.cursor.fillWindow.unread = [] := List.prefix_nil.mp (nothing ▸ filled)
  refine ⟨{ feed with cursor := feed.cursor.fillWindow }, ?_⟩
  simp only [Feed.next, none, List.isEmpty_nil, if_true]

theorem part_of_window {c : StreamCursor} (stands : Stands content capacity c)
    {kept left : List UInt8} (whole : c.unread = kept ++ left) :
    c.unread.take kept.length = kept ∧
      content.drop c.position = kept ++ content.drop (c.position + kept.length) ∧
      Stands content capacity (c.consume kept.length) ∧
      (c.consume kept.length).position = c.position + kept.length := by
  have inside : kept.length ≤ c.unread.length := by simp [whole]
  have ahead : kept <+: content.drop c.position :=
    List.IsPrefix.trans ⟨left, whole.symm⟩ stands.fetched
  refine ⟨by rw [whole, List.take_left], ?_, stands.toHolds.consume inside⟩
  rw [← List.drop_drop]
  exact (List.prefix_iff_eq_append.mp ahead).symm

theorem handout_takeCut {c : StreamCursor} (stands : Stands content capacity c)
    (enough : capacity - historyLength ≤ c.unread.length) {cut : Cut}
    (explained : Cut.Explains c.unread cut) :
    Stands content capacity (takeCut c cut).2.2 ∧
      Handout capacity (content.drop c.position) (takeCut c cut).1
        (if (takeCut c cut).2.1 then
          some ⟨c.unread.take cut.length, content.drop (c.position + cut.length)⟩
        else none)
        (content.drop (takeCut c cut).2.2.position) := by
  cases explained with
  | @clean kept left whole ended begins =>
    obtain ⟨taken, ahead, there, place⟩ := part_of_window stands whole
    refine ⟨there, ?_⟩
    simp only [takeCut, Cut.length, taken, Bool.false_eq_true, if_false, place]
    refine .clean ahead (Or.inr ended) ?_
    -- the cut was found in the window, but what follows it is said of the whole source
    have following : content.drop (c.position + kept.length) =
        left ++ content.drop (c.position + c.unread.length) := by
      have split := stands.reflects.drop_eq
      rw [ahead] at split
      conv at split => rhs; rw [whole, List.append_assoc]
      rw [List.append_cancel_left split, whole]
    rw [following]
    cases left with
    | nil => simp at begins
    | cons b rest => simpa using begins
  | @afterLine kept left whole ended header unbroken =>
    obtain ⟨taken, ahead, there, place⟩ := part_of_window stands whole
    obtain ⟨behind, skipped⟩ := drop_skipToRecordEnd there
    have blank := atBlankLine_eq there
    rw [place] at blank skipped
    cases same : atBlankLine (c.consume kept.length) with
    | true =>
      simp only [takeCut, Cut.length, taken, same, if_true, Bool.false_eq_true, if_false, place]
      exact ⟨there, .clean ahead (Or.inr ended) (blank.symm.trans same)⟩
    | false =>
      simp only [takeCut, Cut.length, taken, same, if_true, Bool.false_eq_true, if_false, skipped]
      refine ⟨behind, .afterLine ahead ended header (unbroken_of_append (whole ▸ unbroken)) ?_⟩
      rw [same] at blank
      cases head : (content.drop (c.position + kept.length)).head? with
      | none => simp [head] at blank
      | some b => simpa [head] using blank.symm
  | insideLine noFeed unbroken =>
    obtain ⟨taken, ahead, there, place⟩ := part_of_window stands (List.append_nil c.unread).symm
    obtain ⟨behind, skipped⟩ := drop_skipToRecordEnd there
    rw [place] at skipped
    simp only [takeCut, Cut.length, taken, if_true, skipped]
    exact ⟨behind, .insideLine ahead enough noFeed unbroken⟩

theorem Reads.of_ended (reads : Reads content capacity feed)
    (ended : feed.cursor.fillWindow.ended = true) :
    feed.cursor.fillWindow.unread = feed.ahead content ∧
      Stands content capacity
        (feed.cursor.fillWindow.consume feed.cursor.fillWindow.unread.length) ∧
      content.drop (feed.cursor.fillWindow.consume feed.cursor.fillWindow.unread.length).position =
        [] := by
  obtain ⟨filled, -⟩ := reads.stands.fillWindow
  obtain ⟨there, moved⟩ := filled.toHolds.consume (Nat.le_refl _)
  have all := filled.all ended
  refine ⟨?_, there, ?_⟩
  · rw [all, StreamCursor.position_fillWindow, ahead]
  · rw [moved, ← List.drop_drop, ← all, List.drop_length]

theorem Reads.next (reads : Reads content capacity feed) (found : feed.next = (some chunk, after)) :
    Reads content capacity after ∧ chunk.truncated = feed.cut?.isSome ∧
      Handout capacity (feed.ahead content) chunk.bytes feed.cut? (after.ahead content) := by
  obtain ⟨filled, enough⟩ := reads.stands.fillWindow
  have place : feed.cursor.fillWindow.position = feed.cursor.position :=
    StreamCursor.position_fillWindow _
  unfold Feed.next at found
  simp only at found
  split at found
  next none => simp at found
  next nonempty =>
    split at found
    next whole =>
      -- only the end of the source leaves a window shorter than its capacity
      have ended : feed.cursor.fillWindow.ended = true := by
        by_contra going
        have going : feed.cursor.fillWindow.ended = false := by simpa using going
        have long := enough going
        have least := filled.least
        simp only [going, Bool.or_false, decide_eq_true_eq, reads.whole] at whole
        simp only [leastCapacity, historyLength] at least long
        omega
      obtain ⟨all, there, left⟩ := reads.of_ended ended
      simp only [Prod.mk.injEq, Option.some.injEq] at found
      obtain ⟨rfl, rfl⟩ := found
      have none : feed.cut? = none := by simp only [cut?, whole, if_true]
      refine ⟨⟨there, reads.whole⟩, by rw [none]; rfl, ?_⟩
      rw [none, ← all, ahead, left]
      exact .clean (List.append_nil _).symm (Or.inl rfl) rfl
    next cut =>
      have going : feed.cursor.fillWindow.ended = false := by
        by_contra ended
        simp [ended] at cut
      obtain ⟨there, handout⟩ :=
        handout_takeCut filled (enough going) (Cut.explains_ofWindow feed.cursor.fillWindow.unread)
      simp only [Prod.mk.injEq, Option.some.injEq] at found
      obtain ⟨rfl, rfl⟩ := found
      have named : feed.cut? =
          if (takeCut feed.cursor.fillWindow (Cut.ofWindow feed.cursor.fillWindow.unread)).2.1 then
            some ⟨feed.cursor.fillWindow.unread.take
                (Cut.ofWindow feed.cursor.fillWindow.unread).length,
              content.drop (feed.cursor.fillWindow.position +
                (Cut.ofWindow feed.cursor.fillWindow.unread).length)⟩
          else none := by
        rw [← filled.source]
        simp only [cut?, if_neg cut]
      refine ⟨⟨there, reads.whole⟩, ?_, ?_⟩
      · rw [named]
        cases (takeCut feed.cursor.fillWindow
          (Cut.ofWindow feed.cursor.fillWindow.unread)).2.1 <;> rfl
      · rw [named, ahead, ← place]
        exact handout

def cuts (feed : Feed) : List ShortCut :=
  match _found : feed.next with
  | (none, _) => []
  | (some _, after) => feed.cut?.toList ++ after.cuts
termination_by feed.remaining
decreasing_by exact remaining_lt_of_next _found

theorem cuts_none (found : feed.next = (none, after)) : feed.cuts = [] := by
  rw [cuts]
  split
  next => rfl
  next other => simp_all

theorem cuts_some (found : feed.next = (some chunk, after)) :
    feed.cuts = feed.cut?.toList ++ after.cuts := by
  rw [cuts]
  split
  next other => simp_all
  next other => simp_all

theorem chunks_none (found : feed.next = (none, after)) : feed.chunks = ([], after) := by
  rw [chunks]
  split
  next other => simp_all
  next other => simp_all

theorem chunks_some (found : feed.next = (some chunk, after)) :
    feed.chunks = (chunk :: after.chunks.1, after.chunks.2) := by
  rw [chunks]
  split
  next other => simp_all
  next other => simp_all

theorem Reads.chunks_of_short (reads : Reads content capacity feed)
    (short : (feed.ahead content).length < capacity - historyLength)
    (some : feed.ahead content ≠ []) :
    feed.chunks.1 = [⟨feed.nextIndex, feed.ahead content, false⟩] ∧ feed.cuts = [] := by
  obtain ⟨filled, enough⟩ := reads.stands.fillWindow
  have place : feed.cursor.fillWindow.position = feed.cursor.position :=
    StreamCursor.position_fillWindow _
  have ended : feed.cursor.fillWindow.ended = true := by
    by_contra going
    have long := enough (by simpa using going)
    have inside := filled.fetched.length_le
    rw [place] at inside
    unfold ahead at short
    omega
  obtain ⟨all, -, nothing⟩ := reads.of_ended ended
  rw [all] at nothing
  have first : feed.next = (Option.some ⟨feed.nextIndex, feed.ahead content, false⟩,
      { feed with
        cursor := feed.cursor.fillWindow.consume (feed.ahead content).length
        nextIndex := feed.nextIndex + 1 }) := by
    simp [Feed.next, all, some, ended]
  obtain ⟨there, uncut, -⟩ := reads.next first
  have none : feed.cut? = none := by simpa using uncut.symm
  obtain ⟨last, ended⟩ := there.next_of_nil nothing
  rw [chunks_some first, chunks_none ended, cuts_some first, cuts_none ended, none]
  exact ⟨rfl, rfl⟩

end Feed

/-- How a text is handed out in chunks from beginning to end, and the records that this cuts. -/
inductive Handouts (capacity : Nat) : List UInt8 → List Chunk → List ShortCut → Prop where
  | done : Handouts capacity [] [] []
  | next {ahead left : List UInt8} {chunk : Chunk} {cut? : Option ShortCut}
      {chunks : List Chunk} {cuts : List ShortCut}
      (handout : Handout capacity ahead chunk.bytes cut? left)
      (truncated : chunk.truncated = cut?.isSome) (others : Handouts capacity left chunks cuts) :
      Handouts capacity ahead (chunk :: chunks) (cut?.toList ++ cuts)

/-- Asking for chunks until there are none hands out the whole text, and no fault is met. -/
theorem Feed.Reads.handouts {content : List UInt8} {capacity : Nat} {feed : Feed}
    (reads : Feed.Reads content capacity feed) :
    Handouts capacity (feed.ahead content) feed.chunks.1 feed.cuts ∧
      Feed.Reads content capacity feed.chunks.2 := by
  fun_induction Feed.chunks feed with
  | case1 feed after found =>
    obtain ⟨last, nothing, -⟩ := reads.ended found
    rw [nothing, Feed.cuts_none found]
    exact ⟨.done, last⟩
  | case2 feed chunk after found more last rest ih =>
    obtain ⟨next, truncated, handout⟩ := reads.next found
    obtain ⟨others, last⟩ := ih next
    rw [rest] at others last
    rw [Feed.cuts_some found]
    exact ⟨.next handout truncated others, last⟩

end ProfileTrace
