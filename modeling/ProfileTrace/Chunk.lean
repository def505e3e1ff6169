import ProfileTrace.Chunk.Cut
import ProfileTrace.Cursor.Stream
import ProfileTrace.Frame.Line

/-! Chunks of a trace: runs of whole records that fit into one window, handed out one
after the other. The record that a window cannot hold is handed out once, up to the cut
and marked as cut short; the stream then goes on where that record ends. -/

namespace ProfileTrace

structure Chunk where
  /-- How many chunks were handed out before. -/
  index : Nat
  bytes : List UInt8
  truncated : Bool
  deriving DecidableEq, Repr

namespace Chunk

def cutLine : List UInt8 := cutMarker :: "truncated\n".toUTF8.toList

/-- The first part of a record, with its last line ended and the line for the rest. -/
def markCut (bytes : List UInt8) : List UInt8 :=
  (if bytes.getLast? == some 0x0A then bytes else bytes ++ [0x0A]) ++ cutLine

end Chunk

structure Feed where
  cursor : StreamCursor
  nextIndex : Nat := 0
  /-- Windows up to this length are not cut. -/
  wholeLength : Nat

namespace Feed
open Cursor

def ofReader (reader : Reader) (windowLength : Nat) : Feed where
  cursor := StreamCursor.ofReader reader (max windowLength leastCapacity)
  wholeLength := max windowLength leastCapacity / 4

def atBlankLine (c : StreamCursor) : Bool :=
  c.atEnd || Cut.isLineBreak c.current

/-- The bytes up to a cut as those of a chunk, whether they were cut short, and the
cursor after them. A cut after a line that a blank one follows cuts nothing short. -/
def takeCut (c : StreamCursor) (cut : Cut) : List UInt8 × Bool × StreamCursor :=
  let bytes := c.unread.take cut.length
  let after := c.consume cut.length
  let short := (Chunk.markCut bytes, true, skipToRecordEnd after)
  match cut with
  | .clean _ => (bytes, false, after)
  | .afterLine _ => if atBlankLine after then (bytes, false, after) else short
  | .insideLine _ => short

def next (feed : Feed) : Option Chunk × Feed :=
  let c := feed.cursor.fillWindow
  if c.unread.isEmpty then (none, { feed with cursor := c })
  else
    let (bytes, truncated, after) :=
      if c.unread.length ≤ feed.wholeLength || c.ended then
        (c.unread, false, c.consume c.unread.length)
      else takeCut c (Cut.ofWindow c.unread)
    (some { index := feed.nextIndex, bytes, truncated },
      { feed with cursor := after, nextIndex := feed.nextIndex + 1 })

def remaining (feed : Feed) : Nat := limit feed.cursor - position feed.cursor

theorem reaches_takeCut (c : StreamCursor) (cut : Cut) :
    Reaches (c.consume cut.length) (takeCut c cut).2.2 := by
  cases cut with
  | clean length => exact Reaches.refl _
  | afterLine length =>
    simp only [takeCut]
    split
    · exact Reaches.refl _
    · exact reaches_skipToRecordEnd _
  | insideLine length => exact reaches_skipToRecordEnd _

theorem remaining_lt_of_next {feed after : Feed} {chunk : Chunk}
    (found : feed.next = (some chunk, after)) : after.remaining < feed.remaining := by
  unfold next at found
  simp only at found
  split at found
  · simp at found
  next unread =>
    have some : feed.cursor.fillWindow.unread ≠ [] := by simpa using unread
    have ahead : atEnd feed.cursor.fillWindow = false := by simpa [atEnd, StreamCursor.atEnd]
    have bound := position_lt_limit ahead
    have start : position feed.cursor.fillWindow = position feed.cursor :=
      StreamCursor.position_fillWindow _
    have whole : limit feed.cursor.fillWindow = limit feed.cursor :=
      congrArg ByteArray.size (StreamCursor.bytes_fillWindow feed.cursor)
    have moved : ∀ count, 0 < count → ∀ c : StreamCursor,
        Reaches (feed.cursor.fillWindow.consume count) c →
        limit c - position c < limit feed.cursor - position feed.cursor := by
      intro count positive c reached
      have first := StreamCursor.reaches_consume count feed.cursor.fillWindow
      have strict : position feed.cursor.fillWindow <
          position (feed.cursor.fillWindow.consume count) :=
        StreamCursor.position_lt_consume some positive
      have same := (first.trans reached).limit_eq
      have later := reached.position_le
      omega
    simp only [Prod.mk.injEq] at found
    rw [← found.2]
    simp only [remaining]
    split
    · exact moved _ (List.length_pos_iff.mpr some) _ (Reaches.refl _)
    · exact moved _ (Cut.length_ofWindow_pos some) _ (reaches_takeCut _ _)

def chunks (feed : Feed) : List Chunk × Feed :=
  match _found : feed.next with
  | (none, after) => ([], after)
  | (some chunk, after) =>
      let (more, last) := after.chunks
      (chunk :: more, last)
termination_by feed.remaining
decreasing_by exact remaining_lt_of_next _found

end Feed

end ProfileTrace
