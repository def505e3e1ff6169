/-! A place in a stream of bytes that scanning moves forward one byte at a time.
Past the end the current byte is a sentinel, so that loops need no test of their own
for the end. The laws say that a move never passes the stream's limit and that coming
back to a mark never goes behind it; every scanning loop ends because of them. -/

namespace ProfileTrace

class Cursor (σ : Type) where
  Mark : Type
  /-- The byte at the cursor, or the sentinel at the end. -/
  current : σ → UInt8
  atEnd : σ → Bool
  /-- Bytes of the stream before the cursor. -/
  position : σ → Nat
  /-- No byte lies at this offset or past it. -/
  limit : σ → Nat
  sentinel : σ → UInt8
  /-- Moves past the current byte, and says whether there is a byte now. -/
  advance : σ → Bool × σ
  /-- The byte so many places ahead, or the sentinel when the stream is too short. -/
  peek : Nat → σ → UInt8 × σ
  mark : σ → Mark
  restore : Mark → σ → σ
  position_lt_limit : ∀ {c : σ}, atEnd c = false → position c < limit c
  limit_advance : ∀ c : σ, limit (advance c).2 = limit c
  position_advance : ∀ c : σ,
    position (advance c).2 = if atEnd c then position c else position c + 1
  fst_advance : ∀ c : σ, (advance c).1 = !atEnd (advance c).2
  limit_peek : ∀ (n : Nat) (c : σ), limit (peek n c).2 = limit c
  position_peek : ∀ (n : Nat) (c : σ), position (peek n c).2 = position c
  atEnd_peek : ∀ (n : Nat) {c : σ}, atEnd c = false → atEnd (peek n c).2 = false
  current_peek : ∀ (n : Nat) {c : σ}, atEnd c = false → current (peek n c).2 = current c
  limit_restore : ∀ {c after : σ}, limit after = limit c →
    limit (restore (mark c) after) = limit c
  position_restore : ∀ {c after : σ}, limit after = limit c → position c ≤ position after →
    position c ≤ position (restore (mark c) after)

namespace Cursor

variable {σ : Type} [Cursor σ]

structure Reaches (c after : σ) : Prop where
  limit_eq : limit after = limit c
  position_le : position c ≤ position after

theorem Reaches.refl (c : σ) : Reaches c c := ⟨rfl, Nat.le_refl _⟩

theorem Reaches.trans {a b c : σ} (first : Reaches a b) (second : Reaches b c) : Reaches a c :=
  ⟨second.limit_eq.trans first.limit_eq, Nat.le_trans first.position_le second.position_le⟩

theorem reaches_advance (c : σ) : Reaches c (advance c).2 := by
  refine ⟨limit_advance c, ?_⟩
  rw [position_advance]
  split <;> omega

theorem reaches_peek (n : Nat) (c : σ) : Reaches c (peek n c).2 :=
  ⟨limit_peek n c, Nat.le_of_eq (position_peek n c).symm⟩

theorem Reaches.restore {c after : σ} (reached : Reaches c after) :
    Reaches c (restore (mark c) after) :=
  ⟨limit_restore reached.limit_eq, position_restore reached.limit_eq reached.position_le⟩

/-- Twice the bytes ahead, and one more at an end that reading may still undo. -/
def room (c : σ) : Nat := 2 * (limit c - position c) + if atEnd c then 1 else 0

theorem room_advance_lt_of_not_atEnd {c : σ} (within : atEnd c = false) :
    room (advance c).2 < room c := by
  have bound := position_lt_limit within
  unfold room
  rw [limit_advance, position_advance, within]
  simp only [Bool.false_eq_true, if_false]
  split <;> omega

theorem room_advance_lt_of_fst {c : σ} (moved : (advance c).1 = true) :
    room (advance c).2 < room c := by
  cases ended : atEnd c with
  | false => exact room_advance_lt_of_not_atEnd ended
  | true =>
    have within : atEnd (advance c).2 = false := by simpa [fst_advance] using moved
    simp [room, limit_advance, position_advance, ended, within]

end Cursor

end ProfileTrace
