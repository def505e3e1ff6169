import ProfileTrace.Proofs.Chunk.Handout
import ProfileTrace.Proofs.Cursor.Lockstep

/-! Two feeds that hand out the same. Cutting a chunk off asks a cursor for its window and then
moves it forward, never back. What keeps two cursors abreast on that way keeps their chunks the
same, and what a single cursor keeps on that way holds after every chunk. -/

namespace ProfileTrace

namespace StreamCursor.Lockstep
variable {Abreast : StreamCursor → StreamCursor → Prop} {c d : StreamCursor}

theorem takeCut (lockstep : Lockstep Abreast) (abreast : Abreast c d) (same : c.unread = d.unread)
    (cut : Cut) :
    (Feed.takeCut c cut).1 = (Feed.takeCut d cut).1 ∧
      (Feed.takeCut c cut).2.1 = (Feed.takeCut d cut).2.1 ∧
      Abreast (Feed.takeCut c cut).2.2 (Feed.takeCut d cut).2.2 := by
  have after := lockstep.consume abreast same cut.length
  have later := lockstep.skipToRecordEnd after
  have blank : Feed.atBlankLine (c.consume cut.length) =
      Feed.atBlankLine (d.consume cut.length) := by
    simp only [Feed.atBlankLine, lockstep.atEnd_eq after, lockstep.current_eq after]
  cases cut with
  | clean length => exact ⟨congrArg (List.take length) same, rfl, after⟩
  | afterLine length =>
    simp only [Feed.takeCut, same]
    by_cases next : Feed.atBlankLine (d.consume (Cut.afterLine length).length) = true
    · rw [if_pos (blank.trans next), if_pos next]
      exact ⟨rfl, rfl, after⟩
    · rw [if_neg (blank ▸ next), if_neg next]
      exact ⟨rfl, rfl, later⟩
  | insideLine length =>
    simp only [Feed.takeCut, same, true_and]
    exact later

end StreamCursor.Lockstep

namespace Feed
open StreamCursor (Enduring Lockstep)

structure Alongside (Abreast : StreamCursor → StreamCursor → Prop) (feed other : Feed) : Prop where
  cursor : Abreast feed.cursor other.cursor
  nextIndex : feed.nextIndex = other.nextIndex
  wholeLength : feed.wholeLength = other.wholeLength

variable {Abreast : StreamCursor → StreamCursor → Prop} {feed other : Feed}

theorem Alongside.next (alongside : Alongside Abreast feed other) (lockstep : Lockstep Abreast) :
    feed.next.1 = other.next.1 ∧ Alongside Abreast feed.next.2 other.next.2 := by
  obtain ⟨cursor, nextIndex, wholeLength⟩ := alongside
  obtain ⟨filled, same, ended⟩ := lockstep.window cursor
  unfold Feed.next
  simp only [same, ended, nextIndex, wholeLength]
  split
  · exact ⟨rfl, filled, rfl, rfl⟩
  · split
    · exact ⟨rfl, lockstep.consume filled same _, rfl, rfl⟩
    · obtain ⟨bytes, truncated, after⟩ :=
        lockstep.takeCut filled same (Cut.ofWindow other.cursor.fillWindow.unread)
      simp only [bytes, truncated]
      exact ⟨trivial, after, rfl, rfl⟩

theorem Alongside.chunks (alongside : Alongside Abreast feed other) (lockstep : Lockstep Abreast) :
    feed.chunks.1 = other.chunks.1 := by
  fun_induction Feed.chunks feed generalizing other with
  | case1 feed after found =>
    obtain ⟨same, -⟩ := alongside.next lockstep
    rw [found] at same
    have none : other.next = (none, other.next.2) := Prod.ext same.symm rfl
    rw [chunks_none none]
  | case2 feed chunk after found more last rest ih =>
    obtain ⟨same, later⟩ := alongside.next lockstep
    rw [found] at same later
    have others := ih later
    rw [rest] at others
    have some : other.next = (some chunk, other.next.2) := Prod.ext same.symm rfl
    rw [chunks_some some, ← others]

/-! ### Sources of the same bytes -/

theorem alongside_calmed {reader : Reader} (tells : reader.canTell = true) (windowLength : Nat) :
    Alongside StreamCursor.Mirrors (ofReader reader windowLength)
      (ofReader reader.calmed windowLength) :=
  ⟨StreamCursor.mirrors_ofReader tells _ 0, rfl, rfl⟩

theorem alongside_ofReader {reader other : Reader} (calm : reader.Faultless)
    (otherCalm : other.Faultless) (content : reader.content = other.content)
    (start : reader.start = other.start) (windowLength : Nat) :
    Alongside (StreamCursor.Abreast reader.content (max windowLength leastCapacity))
      (ofReader reader windowLength) (ofReader other windowLength) := by
  have abreast := StreamCursor.abreast_ofReader calm otherCalm content start
    (max windowLength leastCapacity)
  rw [Nat.max_eq_left (Nat.le_max_right _ _)] at abreast
  exact ⟨abreast, rfl, rfl⟩

theorem holds_next {Holds : StreamCursor → Prop} (enduring : Enduring Holds)
    (holds : Holds feed.cursor) : Holds feed.next.2.cursor := by
  have alongside : Alongside (fun c d => c = d ∧ Holds c) feed feed := ⟨⟨rfl, holds⟩, rfl, rfl⟩
  exact (alongside.next enduring.lockstep).2.cursor.2

/-! ### The end -/

theorem fst_next (feed : Feed) : feed.next.1 = feed.chunks.1.head? := by
  rcases found : feed.next with ⟨_ | chunk, after⟩
  · rw [chunks_none found, List.head?_nil]
  · rw [chunks_some found, List.head?_cons]

theorem of_next_eq_none (none : feed.next.1 = none) :
    feed.next.2 = { feed with cursor := feed.cursor.fillWindow } ∧
      feed.cursor.fillWindow.unread = [] := by
  unfold Feed.next at none ⊢
  simp only at none ⊢
  split at none
  next empty =>
    rw [if_pos empty]
    exact ⟨rfl, List.isEmpty_iff.mp empty⟩
  next => simp at none

theorem next_of_exhausted (roomy : feed.cursor.Roomy) (none : feed.next.1 = none) :
    feed.next.2.next = (Option.none, feed.next.2) := by
  obtain ⟨after, empty⟩ := of_next_eq_none none
  have still : feed.cursor.fillWindow.fillWindow = feed.cursor.fillWindow :=
    if_pos (roomy.ended_of_nil empty)
  rw [after]
  simp only [Feed.next, still, empty, List.isEmpty_nil, if_true]

end Feed

end ProfileTrace
