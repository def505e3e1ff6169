import ProfileTrace.Proofs.Cursor.Failing
import ProfileTrace.Proofs.Record.Counts
import ProfileTrace.Proofs.Record.Streaming

/-! Records of a source that fails. They are those of the bytes before the failure, wherever it
falls in a record or in the window, and the failure is there to be asked for after the last. -/

namespace ProfileTrace
open Cursor

namespace Record
variable {σ : Type} [Cursor σ]

theorem atEnd_of_read?_none {accepts : String → Bool} {c after : σ}
    (found : read? accepts c = (none, after)) : atEnd after = true := by
  unfold read? at found
  simp only at found
  split at found
  next ended =>
    cases found
    exact ended
  next => simp at found

theorem atEnd_readAll (accepts : String → Bool) (c : σ) :
    atEnd (readAll accepts c).2 = true := by
  fun_induction readAll accepts c with
  | case1 c after found => exact atEnd_of_read?_none found
  | case2 c record after found records rest more ih =>
    rw [more] at ih
    exact ih

/-- The fault that is reported after the last record of a source. -/
def faultAfter (accepts : String → Bool) (source : Reader) (capacity : Nat) : Option Fault :=
  (readAll accepts (skipByteOrderMark (StreamCursor.ofReader source capacity))).2.takeFault.1

/-- A source that fails from an offset on gives the records of the bytes before it and nothing
else, and the failure is reported after them just when the offset is not past the end. -/
theorem ofReader_of_failing {source : Reader} (attentive : source.Attentive) {limit : Nat}
    (fails : source.failsFrom = some limit) (inside : source.start ≤ source.content.length)
    (accepts : String → Bool) (capacity : Nat) :
    ofReader accepts source capacity =
        ofBuffer accepts ((source.content.take limit).drop source.start) ∧
      countAll (ofReader accepts source capacity) =
        countAll (ofBuffer accepts ((source.content.take limit).drop source.start)) ∧
      faultAfter accepts source capacity =
        if limit ≤ source.content.length then some .readFailed else none := by
  obtain ⟨same, -, warned⟩ := ((respects_readAll (StreamCursor.failing attentive) accepts).after
    (keeps_skipByteOrderMark _)) (StreamCursor.alike_ofReader attentive inside capacity 0)
  have records : ofReader accepts source capacity =
      ofBuffer accepts ((source.content.take limit).drop source.start) := by
    have ahead : source.calmed.ahead = (source.content.take limit).drop source.start := by
      rw [Reader.ahead, Reader.content_calmed, Reader.deliverable, fails]
      rfl
    rw [ofBuffer_eq, ← ahead]
    exact same.trans (ofReader_eq attentive.calmed attentive.canSeek accepts capacity)
  have last := warned.last (List.isEmpty_iff.mp (atEnd_readAll accepts
    (skipByteOrderMark (StreamCursor.ofReader source capacity))))
  refine ⟨records, congrArg countAll records, (warned.told last).trans ?_⟩
  simp only [StreamCursor.faultOf, Reader.fails, fails, Option.any_some, decide_eq_true_eq]

/-- A source of one record and a half that is interrupted before each byte and fails in the
second. -/
def brokenOff : Reader := { Reader.slow [
    0x61, 0x20, 0x31, 0x20, 0x5B, 0x30, 0x5D, 0x20, 0x31, 0x3A, 0x20, 0x78, 0x3A, 0x0A,
    0x66, 0x20, 0x67, 0x20, 0x28, 0x6D, 0x29, 0x0A, 0x0A, 0x61, 0x20, 0x31, 0x20, 0x5B] 0 with
  failsFrom := some 25 }

theorem ofReader_of_brokenOff :
    brokenOff.Attentive ∧ brokenOff.failsFrom = some 25 ∧
      brokenOff.start ≤ brokenOff.content.length ∧
      ofReader (fun _ => true) brokenOff 0 =
        ofBuffer (fun _ => true) ((brokenOff.content.take 25).drop 0) ∧
      faultAfter (fun _ => true) brokenOff 0 = some .readFailed := by
  have attentive : brokenOff.Attentive := Reader.attentive_slow _ _ _
  have inside : brokenOff.start ≤ brokenOff.content.length := by decide
  obtain ⟨records, -, fault⟩ := ofReader_of_failing attentive rfl inside (fun _ => true) 0
  exact ⟨attentive, rfl, inside, records, fault⟩

end Record

end ProfileTrace
