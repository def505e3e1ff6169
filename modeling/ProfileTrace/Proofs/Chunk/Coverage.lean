import Mathlib.Order.Bounds.Basic
import ProfileTrace.Proofs.Chunk.Handout
import ProfileTrace.Proofs.Cursor.Capacity

/-! The chunks of a trace account for each of its bytes. A chunk keeps the bytes from one offset
up to another; the next one begins there, or where the record ends that was cut, and the last
one leaves nothing. -/

namespace ProfileTrace
open Cursor
open Record (afterRecord)

/-- A record ends at the beginning of this text: nothing is left, or a line feed comes first and
after it another one, a carriage return, the sentinel or nothing. -/
def EndsRecord : List UInt8 → Prop
  | [] => True
  | first :: rest => first = 0x0A ∧ ∀ next ∈ rest.head?, next = 0x0A ∨ next = 0x0D ∨ next = 0

theorem atRecordEnd_iff (text : List UInt8) (position : Nat) :
    (atRecordEnd (⟨text, position, 0⟩ : TextCursor)).1 = true ↔ EndsRecord text := by
  cases text with
  | nil => simp [atRecordEnd, EndsRecord]
  | cons first rest =>
    by_cases feed : first = 0x0A
    · cases rest <;> simp [atRecordEnd, EndsRecord, feed, peek, sentinel, or_assoc]
    · simp [atRecordEnd, EndsRecord, feed]

def IsFirstEnd (text : List UInt8) (count : Nat) : Prop :=
  IsLeast {offset | EndsRecord (text.drop offset)} count

theorem isFirstEnd_zero {text : List UInt8} (ends : EndsRecord text) : IsFirstEnd text 0 :=
  ⟨ends, fun _ _ => Nat.zero_le _⟩

theorem IsFirstEnd.cons {first : UInt8} {rest : List UInt8} {count : Nat}
    (inside : ¬EndsRecord (first :: rest)) (ahead : IsFirstEnd rest count) :
    IsFirstEnd (first :: rest) (count + 1) := by
  refine ⟨ahead.1, ?_⟩
  intro offset ends
  cases offset with
  | zero => exact absurd ends inside
  | succ offset => exact Nat.succ_le_succ (ahead.2 ends)

theorem exists_afterRecord (text : List UInt8) :
    ∃ count ≤ text.length, afterRecord text = text.drop count ∧ IsFirstEnd text count := by
  rw [← Record.rest_skipToRecordEnd text 0]
  generalize 0 = position
  induction text generalizing position with
  | nil => exact ⟨0, Nat.le_refl 0, by rw [skipToRecordEnd]; rfl, isFirstEnd_zero trivial⟩
  | cons first rest ih =>
    rw [skipToRecordEnd, StreamCursor.snd_atRecordEnd_text]
    by_cases ends : EndsRecord (first :: rest)
    · rw [dif_pos ((atRecordEnd_iff _ _).mpr ends)]
      exact ⟨0, Nat.zero_le _, rfl, isFirstEnd_zero ends⟩
    · rw [dif_neg (mt (atRecordEnd_iff _ _).mp ends), TextCursor.advance_cons]
      obtain ⟨count, inside, same, firstEnd⟩ := ih (position + 1)
      exact ⟨count + 1, Nat.succ_le_succ inside, same, firstEnd.cons ends⟩

namespace Feed
variable {content : List UInt8} {capacity : Nat} {feed after : Feed} {chunk : Chunk}

def kept (feed : Feed) : List UInt8 :=
  let c := feed.cursor.fillWindow
  if c.unread.length ≤ feed.wholeLength || c.ended then c.unread
  else c.unread.take (Cut.ofWindow c.unread).length

theorem kept_prefix (feed : Feed) : feed.kept <+: feed.cursor.fillWindow.unread := by
  unfold kept
  simp only
  split
  · exact List.prefix_refl _
  · exact List.take_prefix _ _

theorem kept_ne_nil (found : feed.next = (some chunk, after)) : feed.kept ≠ [] := by
  unfold next at found
  simp only at found
  split at found
  next => simp at found
  next nonempty =>
    have some : feed.cursor.fillWindow.unread ≠ [] := by simpa using nonempty
    have positive := Cut.length_ofWindow_pos some
    unfold kept
    simp only
    split
    · exact some
    · intro none
      rcases List.take_eq_nil_iff.mp none with zero | none
      · omega
      · exact some none

theorem kept_of_cut {cut : ShortCut} (short : feed.cut? = some cut) : cut.kept = feed.kept := by
  unfold cut? at short
  unfold kept
  simp only at short ⊢
  split at short
  · simp at short
  next more =>
    rw [if_neg more]
    split at short
    · rw [← Option.some.inj short]
    · simp at short

theorem bytes_takeCut (c : StreamCursor) (cut : Cut) (whole : (takeCut c cut).2.1 = false) :
    (takeCut c cut).1 = c.unread.take cut.length := by
  cases cut with
  | clean => rfl
  | afterLine length =>
    unfold takeCut at whole ⊢
    simp only at whole ⊢
    split at whole
    next blank => rw [if_pos blank]
    next => simp at whole
  | insideLine => simp [takeCut] at whole

theorem index_of_next (found : feed.next = (some chunk, after)) :
    chunk.index = feed.nextIndex ∧ after.nextIndex = feed.nextIndex + 1 := by
  unfold next at found
  simp only at found
  split at found
  · simp at found
  · simp only [Prod.mk.injEq, Option.some.injEq] at found
    rw [← found.1, ← found.2]
    exact ⟨rfl, rfl⟩

theorem bytes_of_next (found : feed.next = (some chunk, after)) (whole : chunk.truncated = false) :
    chunk.bytes = feed.kept := by
  unfold next at found
  simp only at found
  split at found
  · simp at found
  · simp only [Prod.mk.injEq, Option.some.injEq] at found
    rw [← found.1] at whole ⊢
    unfold kept
    simp only at whole ⊢
    split
    next => rfl
    next more =>
      rw [if_neg more] at whole
      exact bytes_takeCut _ _ whole

theorem fits_takeCut {c : StreamCursor} (fits : c.Fits) (cut : Cut) : (takeCut c cut).2.2.Fits := by
  have there := fits.consume cut.length
  cases cut with
  | clean length => exact there
  | afterLine length =>
    simp only [takeCut]
    split
    · exact there
    · exact there.skipToRecordEnd
  | insideLine length => exact there.skipToRecordEnd

theorem fits_of_next (fits : feed.cursor.Fits) (found : feed.next = (some chunk, after)) :
    after.cursor.Fits := by
  unfold next at found
  simp only at found
  split at found
  · simp at found
  · simp only [Prod.mk.injEq, Option.some.injEq] at found
    rw [← found.2]
    simp only
    split
    · exact fits.fillWindow.consume _
    · exact fits_takeCut fits.fillWindow _

end Feed

theorem Handout.of_clean {capacity : Nat} {ahead bytes left : List UInt8}
    (handout : Handout capacity ahead bytes none left) :
    ahead = bytes ++ left ∧ (left = [] ∨ bytes.getLast? = some 0x0A) ∧
      left.head?.all Cut.isLineBreak = true := by
  cases handout with
  | clean whole ended begins => exact ⟨whole, ended, begins⟩

theorem Handout.of_cut {capacity : Nat} {ahead bytes left : List UInt8} {cut : ShortCut}
    (handout : Handout capacity ahead bytes (some cut) left) :
    ahead = cut.kept ++ cut.rest ∧ bytes = Chunk.markCut cut.kept ∧ left = afterRecord cut.rest := by
  cases handout with
  | afterLine whole => exact ⟨whole, rfl, rfl⟩
  | insideLine whole => exact ⟨whole, rfl, rfl⟩

/-- How a chunk comes from a stream: it keeps the bytes from `start` up to `stop`, and those after
it begin at `next`. A chunk that is cut short goes on with a marked line, and the stream goes on
where the record ends. -/
structure Chunk.IsPart (stream : List UInt8) (capacity start stop next : Nat) (chunk : Chunk) :
    Prop where
  some : start < stop
  fits : stop ≤ start + capacity
  inside : stop ≤ next ∧ next ≤ stream.length
  whole : chunk.truncated = false → chunk.bytes = stream.extract start stop ∧ next = stop
  short : chunk.truncated = true → chunk.bytes = markCut (stream.extract start stop) ∧
    IsLeast {offset | stop ≤ offset ∧ EndsRecord (stream.drop offset)} next
  ended : chunk.truncated = false → stop < stream.length →
    chunk.bytes.getLast? = Option.some 0x0A ∧ stream[stop]?.any Cut.isLineBreak = true

theorem extract_of_drop_eq {stream kept rest : List UInt8} {offset : Nat}
    (ahead : stream.drop offset = kept ++ rest) :
    stream.extract offset (offset + kept.length) = kept ∧
      stream.drop (offset + kept.length) = rest := by
  constructor
  · rw [List.extract_eq_take_drop, Nat.add_sub_cancel_left, ahead, List.take_left]
  · rw [← List.drop_drop, ahead, List.drop_left]

theorem IsFirstEnd.isLeast_drop {stream : List UInt8} {stop count : Nat}
    (firstEnd : IsFirstEnd (stream.drop stop) count) :
    IsLeast {offset | stop ≤ offset ∧ EndsRecord (stream.drop offset)} (stop + count) := by
  refine ⟨⟨Nat.le_add_right _ _, List.drop_drop ▸ firstEnd.1⟩, ?_⟩
  rintro offset ⟨behind, ends⟩
  obtain ⟨more, rfl⟩ := Nat.exists_eq_add_of_le behind
  rw [← List.drop_drop] at ends
  exact Nat.add_le_add_left (firstEnd.2 ends) stop

namespace Chunk
variable {stream kept rest : List UInt8} {capacity offset : Nat} {chunk : Chunk}

theorem length_of_drop_eq (inside : offset ≤ stream.length)
    (ahead : stream.drop offset = kept ++ rest) :
    offset + kept.length + rest.length = stream.length := by
  have long := congrArg List.length ahead
  rw [List.length_drop, List.length_append] at long
  omega

theorem isPart_of_whole (inside : offset ≤ stream.length)
    (ahead : stream.drop offset = kept ++ rest) (some : kept ≠ []) (fits : kept.length ≤ capacity)
    (uncut : chunk.truncated = false) (bytes : chunk.bytes = kept)
    (ended : rest = [] ∨ kept.getLast? = Option.some 0x0A)
    (begins : rest.head?.all Cut.isLineBreak = true) :
    chunk.IsPart stream capacity offset (offset + kept.length) (offset + kept.length) := by
  have positive := List.length_pos_iff.mpr some
  have long := length_of_drop_eq inside ahead
  obtain ⟨part, left⟩ := extract_of_drop_eq ahead
  refine ⟨by omega, by omega, by omega, fun _ => ⟨bytes.trans part.symm, rfl⟩, by simp [uncut], ?_⟩
  intro _ before
  have more : rest ≠ [] := List.ne_nil_of_length_pos (by omega)
  rw [← left, List.head?_drop] at begins
  rw [List.getElem?_eq_getElem before] at begins ⊢
  exact ⟨bytes ▸ ended.resolve_left more, by simpa using begins⟩

theorem isPart_of_cut (inside : offset ≤ stream.length)
    (ahead : stream.drop offset = kept ++ rest) (some : kept ≠ []) (fits : kept.length ≤ capacity)
    (cut : chunk.truncated = true) (bytes : chunk.bytes = markCut kept) :
    ∃ next, chunk.IsPart stream capacity offset (offset + kept.length) next ∧
      afterRecord rest = stream.drop next := by
  have positive := List.length_pos_iff.mpr some
  have long := length_of_drop_eq inside ahead
  obtain ⟨part, left⟩ := extract_of_drop_eq ahead
  obtain ⟨count, within, skipped, firstEnd⟩ := exists_afterRecord rest
  rw [← left] at firstEnd
  refine ⟨offset + kept.length + count, ?_, ?_⟩
  · refine ⟨by omega, by omega, by omega, by simp [cut], fun _ => ⟨?_, firstEnd.isLeast_drop⟩,
      by simp [cut]⟩
    rw [part, bytes]
  · rw [skipped, ← left, List.drop_drop]

end Chunk

theorem Feed.Reads.isPart {content stream : List UInt8} {capacity offset : Nat} {feed after : Feed}
    {chunk : Chunk} (reads : Feed.Reads content capacity feed) (fits : feed.cursor.Fits)
    (inside : offset ≤ stream.length) (ahead : feed.ahead content = stream.drop offset)
    (found : feed.next = (some chunk, after)) :
    ∃ stop next, chunk.IsPart stream capacity offset stop next ∧
      after.ahead content = stream.drop next := by
  have size : feed.kept.length ≤ capacity := by
    have window := fits.fillWindow
    have same := reads.stands.fillWindow.1.size
    have part := feed.kept_prefix.length_le
    simp only [StreamCursor.Fits, StreamCursor.held] at window
    omega
  have some := Feed.kept_ne_nil found
  obtain ⟨-, truncated, handout⟩ := reads.next found
  rw [ahead] at handout
  cases here : feed.cut? with
  | none =>
    rw [here] at truncated handout
    have bytes := Feed.bytes_of_next found truncated
    obtain ⟨whole, ended, begins⟩ := handout.of_clean
    rw [bytes] at whole ended
    have part := Chunk.isPart_of_whole inside whole some size truncated bytes ended begins
    exact ⟨_, _, part, (extract_of_drop_eq whole).2.symm⟩
  | some cut =>
    rw [here] at truncated handout
    obtain ⟨whole, bytes, left⟩ := handout.of_cut
    rw [Feed.kept_of_cut here] at whole bytes
    obtain ⟨next, part, later⟩ := Chunk.isPart_of_cut inside whole some size truncated bytes
    exact ⟨_, next, part, left.trans later⟩

inductive Chunk.Tiles (stream : List UInt8) (capacity : Nat) : Nat → List Chunk → Prop where
  | done : Tiles stream capacity stream.length []
  | next {start stop next : Nat} {chunk : Chunk} {chunks : List Chunk}
      (part : chunk.IsPart stream capacity start stop next)
      (others : Tiles stream capacity next chunks) : Tiles stream capacity start (chunk :: chunks)

/-- Asking a feed for chunks again and again until it has none. -/
inductive Feed.Gives : Feed → List Chunk → Prop where
  | none {feed after : Feed} (found : feed.next = (none, after)) : Gives feed []
  | some {feed after : Feed} {chunk : Chunk} {chunks : List Chunk}
      (found : feed.next = (some chunk, after)) (others : Gives after chunks) :
      Gives feed (chunk :: chunks)

theorem Feed.gives_chunks (feed : Feed) : feed.Gives feed.chunks.1 := by
  fun_induction Feed.chunks feed with
  | case1 feed after found => exact .none found
  | case2 feed chunk after found more last rest ih =>
    rw [rest] at ih
    exact .some found ih

theorem Feed.Gives.index_getElem {feed : Feed} {chunks : List Chunk} (gives : feed.Gives chunks)
    {i : Nat} (inside : i < chunks.length) : chunks[i].index = feed.nextIndex + i := by
  induction gives generalizing i with
  | none found => exact absurd inside (Nat.not_lt_zero i)
  | @some feed after chunk chunks found others ih =>
    obtain ⟨first, next⟩ := Feed.index_of_next found
    cases i with
    | zero => exact first
    | succ i =>
      have later := ih (Nat.lt_of_succ_lt_succ inside)
      rw [next] at later
      rw [List.getElem_cons_succ, later]
      omega

theorem Feed.Reads.tiles {content stream : List UInt8} {capacity offset : Nat} {feed : Feed}
    {chunks : List Chunk} (reads : Feed.Reads content capacity feed) (fits : feed.cursor.Fits)
    (inside : offset ≤ stream.length) (ahead : feed.ahead content = stream.drop offset)
    (gives : feed.Gives chunks) : Chunk.Tiles stream capacity offset chunks := by
  induction gives generalizing offset with
  | none found =>
    have nothing := (reads.ended found).2.1
    rw [ahead, List.drop_eq_nil_iff] at nothing
    rw [Nat.le_antisymm inside nothing]
    exact .done
  | some found others ih =>
    obtain ⟨stop, next, part, left⟩ := reads.isPart fits inside ahead found
    exact .next part (ih (reads.next found).1 (Feed.fits_of_next fits found) part.inside.2 left)

theorem Feed.tiles_chunks {reader : Reader} (calm : reader.Faultless) (windowLength : Nat) :
    Chunk.Tiles reader.ahead (max windowLength leastCapacity) 0
      (Feed.ofReader reader windowLength).chunks.1 :=
  (Feed.reads_ofReader calm windowLength).tiles (StreamCursor.fits_ofReader reader _ _)
    (Nat.zero_le _) (Feed.ahead_ofReader calm windowLength) (Feed.gives_chunks _)

theorem Chunk.Tiles.length_le {stream : List UInt8} {capacity offset : Nat} {chunks : List Chunk}
    (tiles : Chunk.Tiles stream capacity offset chunks)
    (uncut : ∀ chunk ∈ chunks, chunk.truncated = false) :
    stream.length ≤ offset + chunks.length * capacity := by
  induction tiles with
  | done => exact Nat.le_add_right _ _
  | next part others ih =>
    have whole := (part.whole (uncut _ List.mem_cons_self)).2
    have later := ih fun chunk among => uncut chunk (List.mem_cons_of_mem _ among)
    have fits := part.fits
    rw [List.length_cons, Nat.succ_mul]
    omega

theorem Chunk.Tiles.exists_offsets {stream : List UInt8} {capacity offset : Nat}
    {chunks : List Chunk} (tiles : Chunk.Tiles stream capacity offset chunks) :
    ∃ start stop : Nat → Nat, start 0 = offset ∧ start chunks.length = stream.length ∧
      ∀ i (inside : i < chunks.length),
        chunks[i].IsPart stream capacity (start i) (stop i) (start (i + 1)) := by
  induction tiles with
  | done => exact ⟨fun _ => stream.length, fun _ => stream.length, rfl, rfl, by simp⟩
  | @next first upTo next chunk chunks part others ih =>
    obtain ⟨start, stop, rfl, last, parts⟩ := ih
    refine ⟨(Nat.casesOn · first start), (Nat.casesOn · upTo stop), rfl, last, ?_⟩
    intro i inside
    cases i with
    | zero => exact part
    | succ i => exact parts i (Nat.lt_of_succ_lt_succ inside)

/-- The chunks of a stream, with the offsets where they begin and those up to which they keep its
bytes. -/
structure Chunk.Offsets (stream : List UInt8) (capacity : Nat) (chunks : List Chunk)
    (start stop : Nat → Nat) : Prop where
  first : start 0 = 0
  last : start chunks.length = stream.length
  index : ∀ i (inside : i < chunks.length), chunks[i].index = i
  part : ∀ i (inside : i < chunks.length),
    chunks[i].IsPart stream capacity (start i) (stop i) (start (i + 1))
  /-- A chunk that is not cut short and not the last ends with a line feed before a line break. -/
  between : ∀ i (more : i + 1 < chunks.length), chunks[i].truncated = false →
    chunks[i].bytes.getLast? = some 0x0A ∧ stream[stop i]?.any Cut.isLineBreak = true

/-- No byte of a trace is dropped, repeated or moved by handing it out in chunks. Asking for the
next chunk ends after finitely many, and these lie one after the other: each keeps some bytes of
the source that fit into a window, and nothing is left out between them but the rest of a record
that was cut. -/
theorem exists_offsets_of_chunks {reader : Reader} (calm : reader.Faultless) (windowLength : Nat) :
    ∃ chunks start stop, (Feed.ofReader reader windowLength).Gives chunks ∧
      Chunk.Offsets reader.ahead (max windowLength leastCapacity) chunks start stop := by
  have gives := (Feed.ofReader reader windowLength).gives_chunks
  obtain ⟨start, stop, first, last, part⟩ := (Feed.tiles_chunks calm windowLength).exists_offsets
  refine ⟨_, start, stop, gives, first, last, ?_, part, ?_⟩
  · intro i inside
    rw [gives.index_getElem inside]
    exact Nat.zero_add i
  · intro i more whole
    have here := part i (Nat.lt_of_succ_lt more)
    have next := part (i + 1) more
    refine here.ended whole ?_
    calc
      stop i = start (i + 1) := (here.whole whole).2.symm
      _ < stop (i + 1) := next.some
      _ ≤ reader.ahead.length := Nat.le_trans next.inside.1 next.inside.2

def slowLongRecord : Reader := .slow (List.replicate 700 0x61 ++ [0x0A, 0x0A]) 0

theorem exists_offsets_of_slowLongRecord :
    slowLongRecord.Faultless ∧
      ∃ chunks start stop, (Feed.ofReader slowLongRecord 0).Gives chunks ∧
        Chunk.Offsets slowLongRecord.ahead 512 chunks start stop := by
  have calm : slowLongRecord.Faultless := Reader.faultless_slow _ _
  exact ⟨calm, exists_offsets_of_chunks calm 0⟩

end ProfileTrace
