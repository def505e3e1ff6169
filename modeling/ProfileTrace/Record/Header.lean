import ProfileTrace.Event
import ProfileTrace.Seconds.Decimal
import ProfileTrace.Text.Wrapping

/-! The first line of a record: command, process, thread, processor, time, an integer
property, and the name of the event. The command ends where a token begins with a digit;
the thread, the processor and the property may be missing. -/

namespace ProfileTrace

structure Header where
  command : String
  pid : Int
  tid : Int
  cpu : Int
  time : Seconds
  timeProperty : Int
  name : String
  deriving DecidableEq, Repr

namespace Header
open Cursor Text

variable {σ : Type} [Cursor σ]

def isTokenEnd (b : UInt8) : Bool := isSpaceByte b || b == 0x0A

def isColumnEnd (b : UInt8) : Bool := b == 0x3A || b == 0x0A

def atCommandEnd (c : σ) : Bool := atEnd c || current c == 0x0A || isDigitByte (current c)

theorem position_lt_readToken {c : σ} (going : atCommandEnd (skipSpaces c) = false) :
    position c < position (readUntil isTokenEnd (skipSpaces c)).2 := by
  simp only [atCommandEnd, Bool.or_eq_false_iff] at going
  obtain ⟨⟨within, noBreak⟩, -⟩ := going
  have noSpace := not_test_skipWhile isSpaceByte (c := c) within
  have start := (reaches_skipWhile isSpaceByte c).position_le
  have token := position_lt_readUntil isTokenEnd within (by
    simp only [isTokenEnd, Bool.or_eq_false_iff]
    exact ⟨noSpace, noBreak⟩)
  exact Nat.lt_of_le_of_lt start token

def takeTokens (tokens : List (List UInt8)) (c : σ) : List (List UInt8) × σ :=
  if _ended : atCommandEnd (skipSpaces c) then (tokens, skipSpaces c)
  else
    let token := readUntil isTokenEnd (skipSpaces c)
    takeTokens (token.1 :: tokens) token.2
termination_by limit c - position c
decreasing_by
  have going : atCommandEnd (skipSpaces c) = false := by simpa using _ended
  have moved := position_lt_readToken going
  simp only [atCommandEnd, Bool.or_eq_false_iff] at going
  have start := reaches_skipWhile isSpaceByte c
  have bound := position_lt_limit going.1.1
  have token := (reaches_readUntil isTokenEnd (skipSpaces c)).limit_eq
  have same : limit (skipSpaces c) = limit c := start.limit_eq
  have before : position c ≤ position (skipSpaces c) := start.position_le
  rw [token, same]
  omega

def readCommand (c : σ) : String × σ :=
  let (tokens, c) := takeTokens [] c
  (ofBytes ([0x20].intercalate tokens.reverse), c)

/-- Reads the thread after a slash; without one it is the process. -/
def readTid (pid : Int) (c : σ) : Int × σ :=
  if current c == 0x2F then readInt32 (advance c).2 else (pid, c)

/-- Reads the processor in square brackets, of which the closing one may be missing. -/
def readCpu (c : σ) : Int × σ :=
  if current c == 0x5B then
    let (cpu, c) := readInt32 (advance c).2
    (cpu, if current c == 0x5D then (advance c).2 else c)
  else (absent, c)

def skipColon (c : σ) : σ := if current c == 0x3A then (advance c).2 else c

def readColumn (c : σ) : String × σ :=
  let (bytes, c) := readUntil isColumnEnd c
  (trim (ofBytes bytes), skipColon c)

def readProperty (c : σ) : Int × σ :=
  if isDigitByte (current c) then readInt c else (absent, c)

def read (c : σ) : Header × σ :=
  let (command, c) := readCommand c
  let (pid, c) := readInt32 c
  let (tid, c) := readTid pid c
  let (cpu, c) := readCpu (skipSpaces c)
  let (time, c) := readColumn (skipSpaces c)
  let (timeProperty, c) := readProperty (skipSpaces c)
  let (name, c) := readColumn (skipSpaces c)
  ({ command, pid, tid, cpu, timeProperty, name,
     time := (Seconds.ofText? time).getD .minusOne }, c)

theorem reaches_takeTokens (tokens : List (List UInt8)) (c : σ) :
    Reaches c (takeTokens tokens c).2 := by
  fun_induction takeTokens tokens c with
  | case1 tokens c => exact reaches_skipWhile _ c
  | case2 tokens c _ token ih =>
    exact (reaches_skipWhile _ c).trans <| (reaches_readUntil isTokenEnd _).trans ih

theorem reaches_readCommand (c : σ) : Reaches c (readCommand c).2 := reaches_takeTokens [] c

theorem reaches_readTid (pid : Int) (c : σ) : Reaches c (readTid pid c).2 := by
  unfold readTid
  split
  · exact (reaches_advance c).trans (reaches_readInt32 _)
  · exact Reaches.refl c

theorem reaches_readCpu (c : σ) : Reaches c (readCpu c).2 := by
  unfold readCpu
  split
  · have first := (reaches_advance c).trans (reaches_readInt32 _)
    simp only
    split
    · exact first.trans (reaches_advance _)
    · exact first
  · exact Reaches.refl c

theorem reaches_readColumn (c : σ) : Reaches c (readColumn c).2 := by
  have column := reaches_readUntil isColumnEnd c
  simp only [readColumn, skipColon]
  split
  · exact column.trans (reaches_advance _)
  · exact column

theorem reaches_readProperty (c : σ) : Reaches c (readProperty c).2 := by
  unfold readProperty
  split
  · exact reaches_readInt c
  · exact Reaches.refl c

theorem position_lt_readPid {c : σ} (within : atEnd c = false)
    (noBlank : isWhitespaceByte (current c) = false) :
    position c < position (readInt32 (readCommand c).2).2 := by
  simp only [isWhitespaceByte, Bool.or_eq_false_iff] at noBlank
  have noSpace : isSpaceByte (current c) = false := by simp [isSpaceByte, noBlank]
  have start : skipSpaces c = c := skipWhile_of_not_test noSpace
  cases digit : isDigitByte (current c) with
  | true =>
    have none : readCommand c = ("", c) := by
      unfold readCommand
      rw [takeTokens]
      simp [start, atCommandEnd, digit, ofBytes]
    rw [none]
    exact position_lt_readInt32 within digit
  | false =>
    have going : atCommandEnd (skipSpaces c) = false := by
      simp [start, atCommandEnd, within, noBlank, digit]
    have token := position_lt_readToken going
    have rest := (reaches_takeTokens [(readUntil isTokenEnd (skipSpaces c)).1]
      (readUntil isTokenEnd (skipSpaces c)).2).position_le
    have pid := (reaches_readInt32 (readCommand c).2).position_le
    have command : position (readUntil isTokenEnd (skipSpaces c)).2 ≤
        position (readCommand c).2 := by
      unfold readCommand
      rw [takeTokens]
      simpa [going] using rest
    omega

theorem reaches_read_of_pid (c : σ) :
    Reaches (readInt32 (readCommand c).2).2 (read c).2 :=
  (reaches_readTid _ _).trans <| (reaches_skipWhile _ _).trans <| (reaches_readCpu _).trans <|
    (reaches_skipWhile _ _).trans <| (reaches_readColumn _).trans <|
    (reaches_skipWhile _ _).trans <| (reaches_readProperty _).trans <|
    (reaches_skipWhile _ _).trans (reaches_readColumn _)

theorem reaches_read (c : σ) : Reaches c (read c).2 :=
  (reaches_readCommand c).trans <| (reaches_readInt32 _).trans (reaches_read_of_pid c)

end Header

end ProfileTrace
