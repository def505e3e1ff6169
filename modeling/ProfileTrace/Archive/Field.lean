/-! The fields of an archive: numbers of a fixed width, and the marks that its parts begin
with. -/

namespace ProfileTrace.Archive

/-- A number of `width` bytes, the low one first, if they are there. -/
def number? (bytes : ByteArray) (offset : Nat) : Nat → Option Nat
  | 0 => some 0
  | width + 1 => do
      let low ← bytes[offset]?
      let high ← number? bytes (offset + 1) width
      return low.toNat + 256 * high

def part? (bytes : ByteArray) (offset length : Nat) : Option ByteArray :=
  if offset + length ≤ bytes.size then some (bytes.extract offset (offset + length)) else none

def headerMark : Nat := 0x04034B50

def directoryMark : Nat := 0x02014B50

def directoryEndMark : Nat := 0x06054B50

def wideEndMark : Nat := 0x06064B50

def wideLocatorMark : Nat := 0x07064B50

/-- The places of a mark that begin at `start` or later and end at `stop` or earlier. -/
def places (bytes : ByteArray) (mark start stop : Nat) : List Nat :=
  (List.range' start (stop - 3 - start)).filter fun place => number? bytes place 4 = some mark

/-- The largest numbers of 16 and 32 bits, which stand for a number that is kept in a wider
field. -/
def wide16 : Nat := 0xFFFF
def wide32 : Nat := 0xFFFFFFFF

end ProfileTrace.Archive
