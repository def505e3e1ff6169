import ProfileTrace.Archive.Extra
import ProfileTrace.Text.CodePage
import ProfileTrace.Text.Utf8

/-! The directory of an archive. A record after it says where it begins and how many
entries it has. Offsets count from where the archive begins, which need not be the first
byte of the file: it is found from where the directory really is. An archive whose
directory does not fit the record's fields has a wide record before it. -/

namespace ProfileTrace.Archive

/-- Where a directory is: the place of its first entry, the place in the file from which
offsets count, and the number of its entries. -/
structure Directory where
  start : Nat
  base : Nat
  count : Nat

structure EndRecord where
  disk : Nat
  directoryDisk : Nat
  countOnDisk : Nat
  count : Nat
  offset : Nat

def endRecordLength : Nat := 22

def endRecord? (bytes : ByteArray) (place : Nat) : Option EndRecord := do
  let field (offset width : Nat) := number? bytes (place + offset) width
  guard ((← field 0 4) = directoryEndMark)
  let commentLength ← field 20 2
  let _ ← part? bytes place (endRecordLength + commentLength)
  return { disk := ← field 4 2, directoryDisk := ← field 6 2, countOnDisk := ← field 8 2,
           count := ← field 10 2, offset := ← field 16 4 }

/-- The directory that an end record at a place speaks of. An empty one is right before the
record; any other begins with the first mark at its offset or later. -/
def EndRecord.directory? (r : EndRecord) (bytes : ByteArray) (place : Nat) :
    Option Directory := do
  guard (r.disk = r.directoryDisk)
  if r.count = 0 then
    let base := place - r.offset
    return { start := r.offset + base, base, count := r.countOnDisk }
  else
    guard (r.offset < place)
    let start ← (places bytes directoryMark r.offset place).head?
    return { start, base := start - r.offset, count := r.countOnDisk }

/-! ### Wide records -/

structure WideLocator where
  place : Nat
  directoryDisk : Nat
  offset : Nat
  disks : Nat

def wideLocatorLength : Nat := 20

def wideLocator? (bytes : ByteArray) (endPlace : Nat) : Option WideLocator := do
  guard (wideLocatorLength ≤ endPlace)
  let place := endPlace - wideLocatorLength
  let field (offset width : Nat) := number? bytes (place + offset) width
  guard ((← field 0 4) = wideLocatorMark)
  return { place, directoryDisk := ← field 4 4, offset := ← field 8 8, disks := ← field 16 4 }

/-- The bytes of a wide end record that its size does not count, and the least size. -/
def wideUncounted : Nat := 12
def leastWideSize : Nat := 44

def entryLength : Nat := 46

/-- The directory that a wide end record at a place speaks of. The record reaches up to its
locator, and the directory has room before it. The inner option is for a record that is the
right one and cannot be used. -/
def WideLocator.directoryAt? (l : WideLocator) (bytes : ByteArray) (place : Nat) :
    Option (Option Directory) := do
  let field (offset width : Nat) := number? bytes (place + offset) width
  let size ← field 4 8
  guard (leastWideSize ≤ size ∧ place + size + wideUncounted = l.place)
  let versionMade ← field 12 2
  let versionNeeded ← field 14 2
  let disk ← field 16 4
  let directoryDisk ← field 20 4
  let countOnDisk ← field 24 8
  let count ← field 32 8
  let offset ← field 48 8
  guard (directoryDisk = l.directoryDisk ∧ offset + entryLength * count ≤ place)
  return do
    guard (countOnDisk ≤ count ∧ versionNeeded ≤ versionMade ∧ disk = directoryDisk)
    let base := place - l.offset
    return { start := offset + base, base, count }

def WideLocator.directory? (l : WideLocator) (bytes : ByteArray) : Option Directory := do
  guard (l.offset < l.place ∧ l.disks ≤ 1)
  (← (places bytes wideEndMark l.offset l.place).findSome? (l.directoryAt? bytes))

def directory? (bytes : ByteArray) (place : Nat) : Option Directory := do
  let r ← endRecord? bytes place
  if r.count = wide16 ∨ r.offset = wide32 then
    match wideLocator? bytes place with
    | some locator => locator.directory? bytes
    | none => r.directory? bytes place
  else r.directory? bytes place

/-! ### Entries -/

def readEntry? (bytes : ByteArray) (base place : Nat) : Option (ArchiveEntry × Nat) := do
  let field (offset width : Nat) := number? bytes (place + offset) width
  guard ((← field 0 4) = directoryMark)
  let nameLength ← field 28 2
  let extraLength ← field 30 2
  let commentLength ← field 32 2
  let attributes ← field 38 4
  let flags ← field 8 2
  let text (written : ByteArray) : String :=
    if flags.testBit 11 then Text.ofUtf8 written.toList else Text.ofCodePage written.toList
  let namePlace := place + entryLength
  let writtenName ← part? bytes namePlace nameLength
  let extra ← part? bytes (namePlace + nameLength) extraLength
  let comment ← part? bytes (namePlace + nameLength + extraLength) commentLength
  let entry ← Extra.addTo? extra
    { name := text writtenName
      writtenName
      comment := text comment
      encrypted := flags.testBit 0
      method := ← field 10 2
      checkSum := ← field 16 4
      compressedSize := ← field 20 4
      plainSize := ← field 24 4
      headerOffset := ← field 42 4
      symbolicLink := (← field 4 2) / 0x100 = 3 ∧ attributes / 0x10000 &&& 0xA000 = 0xA000 }
  guard (entry.method ≠ ArchiveEntry.keyedMethod ∨ entry.keyed)
  return ({ entry with headerOffset := base + entry.headerOffset },
    namePlace + nameLength + extraLength + commentLength)

def readEntries? (bytes : ByteArray) (base : Nat) : Nat → Nat → Option (List ArchiveEntry)
  | 0, _ => some []
  | count + 1, place => do
      let (entry, next) ← readEntry? bytes base place
      return entry :: (← readEntries? bytes base count next)

def dataOffset? (bytes : ByteArray) (entry : ArchiveEntry) : Option Nat := do
  guard ((← number? bytes entry.headerOffset 4) = headerMark)
  let nameLength ← number? bytes (entry.headerOffset + 26) 2
  let extraLength ← number? bytes (entry.headerOffset + 28) 2
  return entry.headerOffset + 30 + nameLength + extraLength

/-- The entries of a directory, if each has its header before the directory. -/
def Directory.entries? (directory : Directory) (bytes : ByteArray) :
    Option (List ArchiveEntry) := do
  let entries ← readEntries? bytes directory.base directory.count directory.start
  guard (entries.all fun entry =>
    entry.headerOffset < directory.start &&
      (dataOffset? bytes entry).any (· ≤ directory.start))
  return entries

end ProfileTrace.Archive
