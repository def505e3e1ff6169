import ProfileTrace.Cursor.Stream
import ProfileTrace.Proofs.Cursor.Fetching
import ProfileTrace.Record.Boundary

/-! The size of a window. A source brings no more bytes than it is given space for, so that a
window never holds more than its capacity, whatever the source does. -/

namespace ProfileTrace

namespace Reader

theorem length_le_space_of_delivered {reader after : Reader} {offset space : Nat}
    {bytes : List UInt8} (found : reader.read offset space = (.delivered bytes, after)) :
    bytes.length ≤ space := by
  unfold read at found
  split at found
  · simp at found
  · split at found
    · simp at found
    · simp only [Prod.mk.injEq, Outcome.delivered.injEq] at found
      rw [← found.1, length_slice]
      cases (reader.pace reader.turn).most <;> cases reader.failsFrom <;>
        simp only [Option.map_none, Option.map_some, Option.getD_none, Option.getD_some] <;> omega

theorem length_gather_le_space (reader : Reader) (offset need space : Nat) :
    (reader.gather offset need space).bytes.length ≤ space := by
  fun_induction gather reader offset need space with
  | case1 => exact Nat.zero_le _
  | case2 reader offset need space _ after found ih => exact ih
  | case3 => exact Nat.zero_le _
  | case4 => exact Nat.zero_le _
  | case5 reader offset need space _ bytes after found _ more ih =>
    have first := length_le_space_of_delivered found
    have rest : more.bytes.length ≤ space - bytes.length := ih
    simp only [List.length_append]
    omega

end Reader

namespace StreamCursor

def Fits (c : StreamCursor) : Prop := c.held ≤ c.capacity

variable {c : StreamCursor}

theorem Fits.slide (fits : c.Fits) : c.slide.Fits := by
  have kept := List.length_take_le' historyLength c.history
  simp only [Fits, held, StreamCursor.slide] at fits ⊢
  omega

theorem Fits.fillTo (fits : c.Fits) (needed : Nat) : (c.fillTo needed).Fits := by
  unfold StreamCursor.fillTo
  split
  · exact fits
  · have brought := c.reader.length_gather_le_space (c.position + c.unread.length)
      (needed - c.held) (c.capacity - c.held)
    simp only [Fits, held, List.length_append] at fits brought ⊢
    omega

theorem Fits.ensure (fits : c.Fits) (ahead : Nat) : (c.ensure ahead).2.Fits := by
  rcases ensure_cases ahead c with ⟨same, -⟩ | filling
  · rwa [same]
  · rw [filling]
    apply Fits.fillTo
    exact Nat.le_trans fits.slide (Nat.le_max_left _ _)

theorem Fits.skip (fits : c.Fits) (count : Nat) : (c.skip count).Fits := by
  simp only [Fits, held, StreamCursor.skip, List.length_append, List.length_reverse,
    List.length_take, List.length_drop] at fits ⊢
  omega

theorem Fits.consume (fits : c.Fits) (count : Nat) : (c.consume count).Fits := by
  rw [StreamCursor.consume, settle_eq]
  exact (fits.skip count).ensure 0

theorem Fits.fillWindow (fits : c.Fits) : c.fillWindow.Fits := by
  unfold StreamCursor.fillWindow
  split
  · exact fits
  · exact fits.slide.fillTo c.capacity

theorem fits_ofReader (reader : Reader) (capacity : Nat) (sentinel : UInt8) :
    (ofReader reader capacity sentinel).Fits := by
  apply Fits.fillTo
  exact Nat.zero_le _

theorem Fits.atRecordEnd (fits : c.Fits) : (atRecordEnd c).2.Fits := by
  unfold ProfileTrace.atRecordEnd
  split
  · exact fits
  · split
    · exact fits.ensure 1
    · exact fits

theorem Fits.skipToRecordEnd (fits : c.Fits) : (skipToRecordEnd c).Fits := by
  fun_induction ProfileTrace.skipToRecordEnd c with
  | case1 c ended => exact fits.atRecordEnd
  | case2 c inside ih => exact ih ((fits.atRecordEnd.skip 1).ensure 0)

end StreamCursor

end ProfileTrace
