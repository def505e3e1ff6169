import ProfileTrace.Record.Boundary

/-! Where a window is cut into a chunk and the rest. A cut after a record is best, looked
for near the end of the window first. A record larger than the window is cut after one of
its lines, never inside its header, and a header larger than the window wherever the
window ends. -/

namespace ProfileTrace

inductive Cut where
  | clean (length : Nat)
  | afterLine (length : Nat)
  | insideLine (length : Nat)
  deriving DecidableEq, Repr

namespace Cut

def length : Cut → Nat
  | clean length | afterLine length | insideLine length => length

/-- The number of scans for a record end; the last begins before the middle. -/
def scans : Nat := 6

/-- Where a scan begins: the first at four fifths of the window, each later one at nine
tenths of the one before. -/
def scanStart (length scan : Nat) : Nat :=
  length * (4 * Nat.pow 9 scan) / (5 * Nat.pow 10 scan)

/-- Where the scans from `scan` on find a record end: each looks only at what the one
before it left out. -/
def scanFrom (ends : List Nat) (length scan : Nat) (scanEnd : Nat) : Nat → Option Nat
  | 0 => none
  | more + 1 =>
      let start := min (scanStart length scan) scanEnd
      (ends.find? fun at_ => start ≤ at_ && at_ < scanEnd) <|>
        scanFrom ends length (scan + 1) start more

def scanLimit (length : Nat) : Nat :=
  (List.range scans).foldl (fun scanEnd scan => min (scanStart length scan) scanEnd) length

def lineFeedsFrom (index : Nat) : List UInt8 → List Nat
  | [] => []
  | b :: rest =>
      if b == 0x0A then index :: lineFeedsFrom (index + 1) rest
      else lineFeedsFrom (index + 1) rest

def isLineBreak (b : UInt8) : Bool := b == 0x0A || b == 0x0D

/-- The cut of a window without a record end: after the first line feed from where the
scans ended, or else the last of the window, but not before the end of the header. -/
def ofRecord (window : List UInt8) : Cut :=
  let feeds := lineFeedsFrom 0 window
  let content := (window.takeWhile isLineBreak).length
  match feeds.find? (content ≤ ·) with
  | none => insideLine window.length
  | some headerEnd =>
      let later := (feeds.find? (scanLimit window.length ≤ ·)) <|> feeds.getLast?
      afterLine (max (later.getD headerEnd) headerEnd + 1)

/-- The cut of a window: after the record end that the scans find, or else after the last
one before them. A record end at the very beginning would cut off no record. -/
def ofWindow (window : List UInt8) : Cut :=
  let ends := recordEnds window
  match scanFrom ends window.length 0 window.length scans with
  | some found => clean (found + 1)
  | none =>
      match (ends.filter fun at_ => 1 ≤ at_ && at_ < scanLimit window.length).getLast? with
      | some found => clean (found + 1)
      | none => ofRecord window

theorem length_ofWindow_pos {window : List UInt8} (some : window ≠ []) :
    0 < (ofWindow window).length := by
  unfold ofWindow
  simp only
  split
  · simp [length]
  · split
    · simp [length]
    · unfold ofRecord
      simp only
      split
      · exact List.length_pos_iff.mpr some
      · simp [length]

end Cut

end ProfileTrace
