import ProfileTrace.Cursor.Basic

/-! Where a record ends: at a line feed that a blank line or the end follows. The cursor
asks about the place where it stands; a window of bytes, which more may follow, never
takes its own end for the end of the stream. -/

namespace ProfileTrace

section
variable {σ : Type} [Cursor σ]
open Cursor

/-- Whether the cursor is at the end, or on a line feed that a line feed, a carriage
return or the sentinel follows. -/
def atRecordEnd (c : σ) : Bool × σ :=
  if atEnd c then (true, c)
  else if current c == 0x0A then
    let (next, after) := peek 1 c
    (next == 0x0A || next == 0x0D || next == sentinel after, after)
  else (false, c)

theorem reaches_atRecordEnd (c : σ) : Reaches c (atRecordEnd c).2 := by
  unfold atRecordEnd
  split
  · exact Reaches.refl c
  · split
    · exact reaches_peek 1 c
    · exact Reaches.refl c

theorem position_lt_advance_of_not_atRecordEnd {c : σ} (inside : (atRecordEnd c).1 = false) :
    limit c - position (advance (atRecordEnd c).2).2 < limit c - position c := by
  unfold atRecordEnd at inside ⊢
  split at inside
  · simp at inside
  next within =>
    have ahead : atEnd c = false := by simpa using within
    have bound := position_lt_limit ahead
    simp only [ahead, Bool.false_eq_true, if_false]
    split
    · have : atEnd (peek 1 c).2 = false := atEnd_peek 1 ahead
      simp only [position_advance, this, position_peek, Bool.false_eq_true, if_false]
      omega
    · simp only [position_advance, ahead, Bool.false_eq_true, if_false]
      omega

def skipToRecordEnd (c : σ) : σ :=
  if _inside : (atRecordEnd c).1 then (atRecordEnd c).2
  else skipToRecordEnd (advance (atRecordEnd c).2).2
termination_by limit c - position c
decreasing_by
  have := position_lt_advance_of_not_atRecordEnd (c := c) (by simpa using _inside)
  rwa [limit_advance, (reaches_atRecordEnd c).limit_eq]

theorem reaches_skipToRecordEnd (c : σ) : Reaches c (skipToRecordEnd c) := by
  fun_induction skipToRecordEnd c with
  | case1 c => exact reaches_atRecordEnd c
  | case2 c _ ih => exact (reaches_atRecordEnd c).trans <| (reaches_advance _).trans ih

end

def startsAtRecordEnd : List UInt8 → Bool
  | first :: second :: _ => first == 0x0A && (second == 0x0A || second == 0x0D)
  | _ => false

def isRecordEnd (window : List UInt8) (index : Nat) : Bool :=
  startsAtRecordEnd (window.drop index)

def recordEndsFrom (index : Nat) : List UInt8 → List Nat
  | [] => []
  | b :: rest =>
      if startsAtRecordEnd (b :: rest) then index :: recordEndsFrom (index + 1) rest
      else recordEndsFrom (index + 1) rest

def recordEnds (window : List UInt8) : List Nat := recordEndsFrom 0 window

theorem mem_recordEndsFrom {start index : Nat} {window : List UInt8} :
    index ∈ recordEndsFrom start window ↔
      start ≤ index ∧ isRecordEnd window (index - start) = true := by
  induction window generalizing start with
  | nil => simp [recordEndsFrom, isRecordEnd, startsAtRecordEnd]
  | cons b rest ih =>
    have tail : start + 1 ≤ index → (b :: rest).drop (index - start) =
        rest.drop (index - (start + 1)) := by
      intro later
      rw [show index - start = index - (start + 1) + 1 by omega, List.drop_succ_cons]
    by_cases here : index = start
    · subst here
      have zero : isRecordEnd (b :: rest) (index - index) = startsAtRecordEnd (b :: rest) := by
        simp [isRecordEnd]
      rw [zero]
      simp only [recordEndsFrom]
      split
      next ends => simp [ends]
      next ends =>
        simp only [ih, ends]
        constructor <;> intro found
        · omega
        · simp at found
    · have skip : index ∈ recordEndsFrom start (b :: rest) ↔
          index ∈ recordEndsFrom (start + 1) rest := by
        simp only [recordEndsFrom]
        split <;> simp [here]
      rw [skip, ih]
      constructor
      · rintro ⟨later, ends⟩
        exact ⟨by omega, by rw [isRecordEnd, tail later]; exact ends⟩
      · rintro ⟨later, ends⟩
        have strict : start + 1 ≤ index := by omega
        exact ⟨strict, by rw [isRecordEnd, tail strict] at ends; exact ends⟩

theorem mem_recordEnds {index : Nat} {window : List UInt8} :
    index ∈ recordEnds window ↔ isRecordEnd window index = true := by
  simp [recordEnds, mem_recordEndsFrom]

end ProfileTrace
