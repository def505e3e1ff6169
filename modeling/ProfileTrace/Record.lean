import ProfileTrace.Cursor.InMemory
import ProfileTrace.Frame.Line
import ProfileTrace.Record.Boundary
import ProfileTrace.Record.Header

/-! Records of a trace: a header line with its details, the lines of a stack, and a blank
line. Reading one always moves on, and stops where the record ends, so that nothing a
record holds reaches into the next one. -/

namespace ProfileTrace

inductive Record where
  | event (found : Event)
  | filtered
  deriving DecidableEq, Repr

namespace Record
open Cursor Text

variable {σ : Type} [Cursor σ]

def event? : Record → Option Event
  | .event found => some found
  | .filtered => none

def counts : Record → RecordCounts
  | .event found => { records := 1, truncated := if found.truncated then 1 else 0 }
  | .filtered => { filtered := 1 }

def countAll (records : List Record) : RecordCounts :=
  records.foldl (fun total record => total.merge record.counts) {}

def readLines (c : σ) : List FrameLine × σ :=
  if _ended : (atRecordEnd c).1 then ([], (atRecordEnd c).2)
  else
    let line := FrameLine.read (advance (atRecordEnd c).2).2
    let more := readLines line.2
    (line.1 :: more.1, more.2)
termination_by limit c - position c
decreasing_by
  have moved := position_lt_advance_of_not_atRecordEnd (c := c) (by simpa using _ended)
  have line := FrameLine.reaches_read (advance (atRecordEnd c).2).2
  have same : limit (advance (atRecordEnd c).2).2 = limit c := by
    rw [limit_advance, (reaches_atRecordEnd c).limit_eq]
  have := line.limit_eq
  have := line.position_le
  omega

def frameOfLine : FrameLine → Option Frame
  | .entry frame => some frame
  | _ => none

/-- Reads the switch that the details from `place` on hold, if they hold one, and goes on
to the end of the line. -/
def readSwitch (place : Mark σ) (details : String) (c : σ) : Option Switch × σ :=
  if hasPrefix details Switch.detailsMark then
    let (switch, c) := Switch.read (restore place c)
    (some switch, skipTo 0x0A c)
  else (none, c)

/-- Reads what follows a header: details, and unless the name is refused the stack. The
thread and the process close the stack at its root. -/
def readBody (accepts : String → Bool) (header : Header) (c : σ) : Record × σ :=
  let place := mark c
  let (details, c) := readUntil (· == 0x0A) c
  let details := trim (ofBytes details)
  if accepts header.name then
    let (switch, c) := readSwitch place details c
    let (lines, c) := readLines c
    (.event
      { kind := if switch.isSome then .scheduler else .cpu
        command := header.command
        pid := header.pid
        tid := header.tid
        cpu := header.cpu
        time := header.time
        timeProperty := header.timeProperty
        name := header.name
        details, switch
        frames := lines.filterMap frameOfLine ++ [.thread header.tid, .process header.command]
        truncated := lines.contains .cut }, c)
  else (.filtered, skipToRecordEnd c)

def read? (accepts : String → Bool) (c : σ) : Option Record × σ :=
  let c := skipWhitespace c
  if atEnd c then (none, c)
  else
    let (header, c) := Header.read c
    let (record, c) := readBody accepts header c
    (some record, c)

theorem reaches_readLines (c : σ) : Reaches c (readLines c).2 := by
  fun_induction readLines c with
  | case1 c => exact reaches_atRecordEnd c
  | case2 c _ line more ih =>
    exact (reaches_atRecordEnd c).trans <| (reaches_advance _).trans <|
      (FrameLine.reaches_read _).trans ih

theorem reaches_readSwitch {c after : σ} (reached : Reaches c after) (details : String) :
    Reaches c (readSwitch (mark c) details after).2 := by
  unfold readSwitch
  split
  · exact reached.restore.trans <| (Switch.reaches_read _).trans (reaches_skipWhile _ _)
  · exact reached

theorem reaches_readBody (accepts : String → Bool) (header : Header) (c : σ) :
    Reaches c (readBody accepts header c).2 := by
  have details := reaches_readUntil (· == 0x0A) c
  unfold readBody
  simp only
  split
  · exact (reaches_readSwitch details _).trans (reaches_readLines _)
  · exact details.trans (reaches_skipToRecordEnd _)

theorem reaches_read? (accepts : String → Bool) (c : σ) : Reaches c (read? accepts c).2 := by
  have start : Reaches c (skipWhitespace c) := reaches_skipWhile _ c
  unfold read?
  simp only
  split
  · exact start
  · exact start.trans <| (Header.reaches_read _).trans (reaches_readBody _ _ _)

theorem position_lt_read? {accepts : String → Bool} {c after : σ} {record : Record}
    (found : read? accepts c = (some record, after)) :
    limit after - position after < limit c - position c := by
  have start : Reaches c (skipWhitespace c) := reaches_skipWhile _ c
  have whole := reaches_read? accepts c
  unfold read? at found
  simp only at found
  split at found
  · simp at found
  next within =>
    have ahead : atEnd (skipWhitespace c) = false := by simpa using within
    have noBlank := not_test_skipWhile isWhitespaceByte (c := c) ahead
    have pid := Header.position_lt_readPid ahead noBlank
    have header := Header.reaches_read_of_pid (skipWhitespace c)
    have body := reaches_readBody accepts (Header.read (skipWhitespace c)).1
      (Header.read (skipWhitespace c)).2
    have bound := position_lt_limit ahead
    have lower := start.position_le
    have same := start.limit_eq
    have limits := ((Header.reaches_read (skipWhitespace c)).trans body).limit_eq
    have upper := Nat.le_trans header.position_le body.position_le
    simp only [Prod.mk.injEq] at found
    rw [← found.2, limits, same]
    omega

def readAll (accepts : String → Bool) (c : σ) : List Record × σ :=
  match _found : read? accepts c with
  | (none, c) => ([], c)
  | (some record, c) =>
      let (records, c) := readAll accepts c
      (record :: records, c)
termination_by limit c - position c
decreasing_by exact position_lt_read? _found

def skipByteOrderMark (c : σ) : σ :=
  if current c == 0xEF then
    let (second, c) := peek 1 c
    if second == 0xBB then
      let (third, c) := peek 2 c
      if third == 0xBF then (advance (advance (advance c).2).2).2 else c
    else c
  else c

def ofText (accepts : String → Bool) (text : List UInt8) : List Record :=
  (readAll accepts (skipByteOrderMark { rest := text : TextCursor })).1

def eventsOfText (text : List UInt8) : List Event :=
  (ofText (fun _ => true) text).filterMap event?

end Record

end ProfileTrace
