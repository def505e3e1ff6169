import ProfileTrace.Cursor.Basic
import ProfileTrace.Text.Blank

/-! Scanning over any cursor: stepping over runs of bytes, reading up to a byte, and
reading integers. No reader takes more than its own token, and none goes back behind
the place where it began. -/

namespace ProfileTrace.Cursor
open Text

variable {σ : Type} [Cursor σ]

/-- Moves on while the current byte passes the test; a sentinel that passes it ends
the run too, since no move from there succeeds. -/
@[specialize] def skipWhile (test : UInt8 → Bool) (c : σ) : σ :=
  if test (current c) then
    match _moved : advance c with
    | (true, next) => skipWhile test next
    | (false, next) => next
  else c
termination_by room c
decreasing_by simpa [_moved] using room_advance_lt_of_fst (c := c) (by rw [_moved])

theorem reaches_skipWhile (test : UInt8 → Bool) (c : σ) : Reaches c (skipWhile test c) := by
  fun_induction skipWhile test c with
  | case1 c _ next moved ih =>
    exact Reaches.trans (by simpa [moved] using reaches_advance c) ih
  | case2 c _ next moved => simpa [moved] using reaches_advance c
  | case3 c => exact Reaches.refl c

theorem skipWhile_of_not_test {test : UInt8 → Bool} {c : σ} (stops : test (current c) = false) :
    skipWhile test c = c := by
  rw [skipWhile]
  simp [stops]

theorem not_test_skipWhile (test : UInt8 → Bool) {c : σ}
    (within : atEnd (skipWhile test c) = false) :
    test (current (skipWhile test c)) = false := by
  fun_induction skipWhile test c with
  | case1 c _ next moved ih => exact ih within
  | case2 c _ next moved =>
    have ended : (advance c).1 = !atEnd (advance c).2 := fst_advance c
    rw [moved] at ended
    simp [within] at ended
  | case3 c stops => simpa using stops

def skipWhitespace (c : σ) : σ := skipWhile isWhitespaceByte c

def skipSpaces (c : σ) : σ := skipWhile isSpaceByte c

def skipTo (target : UInt8) (c : σ) : σ := skipWhile (· != target) c

/-- Moves on to the next `target` of this line and says whether there is one; without
one the cursor stays on the line feed. -/
@[specialize] def skipToOnLine (target : UInt8) (c : σ) : Bool × σ :=
  if current c == target && !atEnd c then (true, c)
  else if current c == 0x0A then (false, c)
  else
    match _moved : advance c with
    | (true, next) => skipToOnLine target next
    | (false, next) => (false, next)
termination_by room c
decreasing_by simpa [_moved] using room_advance_lt_of_fst (c := c) (by rw [_moved])

theorem reaches_skipToOnLine (target : UInt8) (c : σ) :
    Reaches c (skipToOnLine target c).2 := by
  fun_induction skipToOnLine target c with
  | case1 c => exact Reaches.refl c
  | case2 c => exact Reaches.refl c
  | case3 c _ _ next moved ih =>
    exact Reaches.trans (by simpa [moved] using reaches_advance c) ih
  | case4 c _ _ next moved => simpa [moved] using reaches_advance c

/-- The bytes before the first that stops the reading, added in front of `taken` in
reverse. -/
@[specialize] def takeUntil (stop : UInt8 → Bool) (taken : List UInt8) (c : σ) : List UInt8 × σ :=
  if _ended : atEnd c then (taken, c)
  else if stop (current c) then (taken, c)
  else takeUntil stop (current c :: taken) (advance c).2
termination_by room c
decreasing_by exact room_advance_lt_of_not_atEnd (by simpa using _ended)

theorem reaches_takeUntil (stop : UInt8 → Bool) (taken : List UInt8) (c : σ) :
    Reaches c (takeUntil stop taken c).2 := by
  fun_induction takeUntil stop taken c with
  | case1 taken c => exact Reaches.refl c
  | case2 taken c => exact Reaches.refl c
  | case3 taken c _ _ ih => exact (reaches_advance c).trans ih

def readUntil (stop : UInt8 → Bool) (c : σ) : List UInt8 × σ :=
  let (taken, after) := takeUntil stop [] c
  (taken.reverse, after)

theorem reaches_readUntil (stop : UInt8 → Bool) (c : σ) : Reaches c (readUntil stop c).2 :=
  reaches_takeUntil stop [] c

theorem position_lt_readUntil (stop : UInt8 → Bool) {c : σ} (within : atEnd c = false)
    (going : stop (current c) = false) : position c < position (readUntil stop c).2 := by
  have moved : position (advance c).2 = position c + 1 := by simp [position_advance, within]
  have rest := (reaches_takeUntil stop [current c] (advance c).2).position_le
  simp only [readUntil]
  rw [takeUntil]
  simp only [within, going, Bool.false_eq_true, dite_false, if_false]
  omega

@[specialize] def takeLine (target : UInt8) (taken : List UInt8)
    (last : Option (List UInt8 × Mark σ)) (c : σ) : Option (List UInt8 × Mark σ) × σ :=
  if _ended : atEnd c then (last, c)
  else if current c == 0x0A then (last, c)
  else
    takeLine target (current c :: taken)
      (if current c == target then some (taken, mark c) else last) (advance c).2
termination_by room c
decreasing_by exact room_advance_lt_of_not_atEnd (by simpa using _ended)

/-- Reads what stands before the last `target` of the line and stays on that `target`;
a line without one is not moved over at all. -/
def readUntilLastOnLine (target : UInt8) (c : σ) : List UInt8 × σ :=
  match takeLine target [] none c with
  | (some (taken, place), after) => (taken.reverse, restore place after)
  | (none, after) => ([], restore (mark c) after)

private theorem reaches_takeLine (target : UInt8) (start : σ) (taken : List UInt8)
    (last : Option (List UInt8 × Mark σ)) (c : σ) (reached : Reaches start c)
    (lastReached : ∀ found ∈ last, ∃ place : σ, found.2 = mark place ∧
      Reaches start place ∧ Reaches place c) :
    Reaches start (takeLine target taken last c).2 ∧
      ∀ found ∈ (takeLine target taken last c).1, ∃ place : σ, found.2 = mark place ∧
        Reaches start place ∧ Reaches place (takeLine target taken last c).2 := by
  fun_induction takeLine target taken last c with
  | case1 taken last c => exact ⟨reached, lastReached⟩
  | case2 taken last c => exact ⟨reached, lastReached⟩
  | case3 taken last c _ _ ih =>
    refine ih (reached.trans (reaches_advance c)) ?_
    intro found member
    split at member
    · simp only [Option.mem_def, Option.some.injEq] at member
      subst member
      exact ⟨c, rfl, reached, reaches_advance c⟩
    · obtain ⟨place, same, before, after⟩ := lastReached found member
      exact ⟨place, same, before, after.trans (reaches_advance c)⟩

theorem reaches_readUntilLastOnLine (target : UInt8) (c : σ) :
    Reaches c (readUntilLastOnLine target c).2 := by
  have line := reaches_takeLine target c [] none c (Reaches.refl c) (by simp)
  unfold readUntilLastOnLine
  split
  next taken place after found =>
    rw [found] at line
    obtain ⟨back, same, before, after⟩ := line.2 (taken, place) (by simp)
    simp only at same
    subst same
    exact before.trans after.restore
  next after found =>
    rw [found] at line
    exact line.1.restore

@[specialize] def readDigits (radix value : Nat) (c : σ) : Nat × σ :=
  if _ended : atEnd c then (value, c)
  else
    match digitValue? radix (current c) with
    | some digit => readDigits radix (value * radix + digit) (advance c).2
    | none => (value, c)
termination_by room c
decreasing_by exact room_advance_lt_of_not_atEnd (by simpa using _ended)

theorem reaches_readDigits (radix value : Nat) (c : σ) :
    Reaches c (readDigits radix value c).2 := by
  fun_induction readDigits radix value c with
  | case1 value c => exact Reaches.refl c
  | case2 value c _ digit _ ih => exact (reaches_advance c).trans ih
  | case3 value c => exact Reaches.refl c

theorem position_lt_readDigits {radix value : Nat} {c : σ} (within : atEnd c = false)
    (digit : (digitValue? radix (current c)).isSome) :
    position c < position (readDigits radix value c).2 := by
  obtain ⟨first, found⟩ := Option.isSome_iff_exists.mp digit
  have moved : position (advance c).2 = position c + 1 := by simp [position_advance, within]
  have rest := (reaches_readDigits radix (value * radix + first) (advance c).2).position_le
  rw [readDigits]
  simp only [within, found, Bool.false_eq_true, dite_false]
  omega

/-- The number that stands for an absent or unreadable field. -/
def absent : Int := -1

def isHexDigit (b : UInt8) : Bool := (digitValue? 16 b).isSome

def atHexLiteral (c : σ) : Bool × σ :=
  if current c == 0x30 then
    let (second, c) := peek 1 c
    if second == 0x78 || second == 0x58 then
      let (third, c) := peek 2 c
      (isHexDigit third, c)
    else (false, c)
  else (false, c)

def readMagnitude (c : σ) : Nat × σ :=
  match atHexLiteral c with
  | (true, c) => readDigits 16 0 (advance (advance c).2).2
  | (false, c) => readDigits 10 0 c

def readUnsigned (c : σ) : Option Nat × σ :=
  if isDigitByte (current c) then
    let (magnitude, c) := readMagnitude c
    (if magnitude < 0x8000000000000000 then some magnitude else none, c)
  else (none, c)

/-- Reads an integer after any spaces: a sign, then a literal whose digits are all
taken. Without a digit, or past 64 bits, the number is `absent`. -/
def readInt (c : σ) : Int × σ :=
  let c := skipSpaces c
  if current c == 0x2D then
    let (magnitude, c) := readUnsigned (advance c).2
    ((magnitude.map fun n => -(n : Int)).getD absent, c)
  else
    let (magnitude, c) := readUnsigned c
    ((magnitude.map fun n => (n : Int)).getD absent, c)

def readInt32 (c : σ) : Int × σ :=
  let (value, c) := readInt c
  (if -0x80000000 ≤ value ∧ value < 0x80000000 then value else absent, c)

theorem reaches_atHexLiteral (c : σ) : Reaches c (atHexLiteral c).2 := by
  unfold atHexLiteral
  split
  · simp only
    split
    · exact (reaches_peek 1 c).trans (reaches_peek 2 _)
    · exact reaches_peek 1 c
  · exact Reaches.refl c

theorem reaches_readMagnitude (c : σ) : Reaches c (readMagnitude c).2 := by
  have first := reaches_atHexLiteral c
  unfold readMagnitude
  split
  next after found =>
    rw [found] at first
    exact first.trans <| (reaches_advance _).trans <| (reaches_advance _).trans <|
      reaches_readDigits 16 0 _
  next after found =>
    rw [found] at first
    exact first.trans (reaches_readDigits 10 0 _)

theorem reaches_readUnsigned (c : σ) : Reaches c (readUnsigned c).2 := by
  unfold readUnsigned
  split
  · exact reaches_readMagnitude c
  · exact Reaches.refl c

theorem reaches_readInt (c : σ) : Reaches c (readInt c).2 := by
  have start : Reaches c (skipSpaces c) := reaches_skipWhile _ c
  unfold readInt
  simp only
  split
  · exact start.trans <| (reaches_advance _).trans (reaches_readUnsigned _)
  · exact start.trans (reaches_readUnsigned _)

theorem reaches_readInt32 (c : σ) : Reaches c (readInt32 c).2 :=
  reaches_readInt c

theorem isSome_digitValue?_of_isDigitByte {b : UInt8} (digit : isDigitByte b = true) :
    (digitValue? 10 b).isSome := by
  simp only [isDigitByte, Bool.and_eq_true, decide_eq_true_eq, UInt8.le_iff_toNat_le] at digit
  have low : 0x30 ≤ b.toNat := digit.1
  have high : b.toNat ≤ 0x39 := digit.2
  simp [digitValue?, low, high, Option.filter]
  omega

theorem position_lt_readInt32 {c : σ} (within : atEnd c = false)
    (digit : isDigitByte (current c) = true) : position c < position (readInt32 c).2 := by
  have noSpace : isSpaceByte (current c) = false := by
    simp only [isDigitByte, Bool.and_eq_true, decide_eq_true_eq, UInt8.le_iff_toNat_le] at digit
    have low : 0x30 ≤ (current c).toNat := digit.1
    simp only [isSpaceByte, Bool.or_eq_false_iff, beq_eq_false_iff_ne, ne_eq]
    constructor <;> intro same <;> rw [same] at low <;> exact absurd low (by decide)
  have noSign : (current c == 0x2D) = false := by
    simp only [isDigitByte, Bool.and_eq_true, decide_eq_true_eq, UInt8.le_iff_toNat_le] at digit
    have low : 0x30 ≤ (current c).toNat := digit.1
    simp only [beq_eq_false_iff_ne, ne_eq]
    intro same
    rw [same] at low
    exact absurd low (by decide)
  have start : skipSpaces c = c := skipWhile_of_not_test noSpace
  suffices moved : position c < position (readMagnitude c).2 by
    simp only [readInt32, readInt, start, noSign, Bool.false_eq_true, if_false, readUnsigned,
      digit, if_true]
    exact moved
  have here : position (atHexLiteral c).2 = position c ∧ atEnd (atHexLiteral c).2 = false ∧
      current (atHexLiteral c).2 = current c := by
    unfold atHexLiteral
    split
    · have ahead := atEnd_peek 1 within
      simp only
      split
      · exact ⟨by simp [position_peek], atEnd_peek 2 ahead, by
          simp [current_peek 2 ahead, current_peek 1 within]⟩
      · exact ⟨position_peek 1 c, ahead, current_peek 1 within⟩
    · exact ⟨rfl, within, rfl⟩
  obtain ⟨place, ahead, same⟩ := here
  unfold readMagnitude
  split
  next after found =>
    rw [found] at place ahead
    have first : position (advance after).2 = position after + 1 := by
      simp [position_advance, ahead]
    have rest := ((reaches_advance (advance after).2).trans
      (reaches_readDigits 16 0 (advance (advance after).2).2)).position_le
    simp only at place
    omega
  next after found =>
    rw [found] at place ahead same
    rw [← place]
    exact position_lt_readDigits ahead (by
      simpa [same] using isSome_digitValue?_of_isDigitByte digit)

end ProfileTrace.Cursor
