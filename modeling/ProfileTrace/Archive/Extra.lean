import ProfileTrace.Archive.CheckSum
import ProfileTrace.Archive.Entry

/-! The extra fields of an entry in the directory. Each has a kind, a length, and contents
that may say more about the entry. A field that breaks the rules of its kind makes the
archive unreadable, while one that goes past the end of the extra fields ends them: what
was read before holds. -/

namespace ProfileTrace.Archive

inductive ExtraFault where
  | cutShort (soFar : ArchiveEntry)
  | malformed

namespace Extra

structure Reading where
  extra : ByteArray
  place : Nat
  entry : ArchiveEntry

abbrev Step (α : Type) := StateT Reading (Except ExtraFault) α

def number (width : Nat) : Step Nat := do
  let r ← get
  match number? r.extra r.place width with
  | some n =>
      set { r with place := r.place + width }
      return n
  | none => throw (.cutShort r.entry)

def part (length : Nat) : Step ByteArray := do
  let r ← get
  match part? r.extra r.place length with
  | some bytes =>
      set { r with place := r.place + length }
      return bytes
  | none => throw (.cutShort r.entry)

def require (condition : Bool) : Step Unit :=
  if condition then return () else throw .malformed

def change (f : ArchiveEntry → ArchiveEntry) : Step Unit :=
  modify fun r => { r with entry := f r.entry }

def allWide : Nat := 24

/-- The sizes and the offset that are too large for their own fields, in this order. -/
def wideNumbers (length : Nat) : Step Unit := do
  let start := (← get).place
  let isWide (n : Nat) : Bool := allWide ≤ length || n == wide32
  if isWide (← get).entry.plainSize then
    let size ← number 8
    change ({ · with plainSize := size })
  if isWide (← get).entry.compressedSize then
    let size ← number 8
    change ({ · with compressedSize := size })
  if isWide (← get).entry.headerOffset then
    let offset ← number 8
    change ({ · with headerOffset := offset })
  let used := (← get).place - start
  require (used ≤ length)
  let _ ← part (length - used)

/-- Times in the units of one file system: reserved bytes, a tag, a size and three times. -/
def fileTimes (length : Nat) : Step Unit := do
  require (length == 32)
  let _ ← number 4
  require ((← number 2) == 1)
  require ((← number 2) == 24)
  let _ ← part 24

def keys (length : Nat) : Step Unit := do
  require (length == 7)
  let version ← number 2
  let vendor ← number 2
  let strength ← number 1
  let method ← number 2
  require (vendor == 0x4541 && (version == 1 || version == 2))
  require (1 ≤ strength && strength ≤ 3)
  change ({ · with method, keyed := true })

/-- Times in seconds. Each flag stands for one, but the shortest field has one in any
case. -/
def shortTimes (length : Nat) : Step Unit := do
  let flags ← number 1
  let times := flags % 2 + flags / 2 % 2 + flags / 4 % 2
  require (flags < 8)
  require (length == 5 || length == 1 + 4 * times)
  let _ ← part (length - 1)

/-- A text in UTF-8 that stands for another one, which must have the given check sum. -/
def otherText (length : Nat) (replaced : ByteArray) : Step (ByteArray × String) := do
  let _ ← number 1
  let sum ← number 4
  require (5 ≤ length)
  let written ← part (length - 5)
  require (sum == checkSum replaced)
  match String.fromUTF8? written with
  | some text => return (written, text)
  | none => throw .malformed

def otherName (length : Nat) : Step Unit := do
  let (writtenName, name) ← otherText length (← get).entry.writtenName
  change ({ · with writtenName, name })

def otherComment (length : Nat) : Step Unit := do
  let (_, comment) ← otherText length (← get).entry.comment.toUTF8
  change ({ · with comment })

def contents (kind length : Nat) : Step Unit :=
  match kind with
  | 0x0001 => wideNumbers length
  | 0x000A => fileTimes length
  | 0x5455 => shortTimes length
  | 0x6375 => otherComment length
  | 0x7075 => otherName length
  | 0x9901 => keys length
  | _ => do let _ ← part length

def oneField : Step Unit := do
  let kind ← number 2
  let length ← number 2
  contents kind length

/-- Reads fields up to the end of the extra bytes; a field has at least four. -/
def readFields (r : Reading) : Except ExtraFault ArchiveEntry :=
  if r.place < r.extra.size then
    match oneField.run r with
    | .error fault => .error fault
    | .ok (_, next) =>
        if _forward : next.extra.size - next.place < r.extra.size - r.place then readFields next
        else .ok next.entry
  else .ok r.entry
termination_by r.extra.size - r.place

def addTo? (extra : ByteArray) (entry : ArchiveEntry) : Option ArchiveEntry :=
  match readFields { extra, place := 0, entry } with
  | .ok entry | .error (.cutShort entry) => some entry
  | .error .malformed => none

end Extra

end ProfileTrace.Archive
