import ProfileTrace.Archive.Field

/-! The entries that the directory of an archive lists. -/

namespace ProfileTrace

structure ArchiveEntry where
  name : String
  writtenName : ByteArray
  comment : String
  encrypted : Bool
  /-- Whether an extra field says how the bytes are encrypted. -/
  keyed : Bool := false
  method : Nat
  checkSum : Nat
  compressedSize : Nat
  plainSize : Nat
  headerOffset : Nat
  symbolicLink : Bool

namespace ArchiveEntry

def isDirectory (entry : ArchiveEntry) : Bool :=
  entry.name.endsWith "/" || entry.name.endsWith "\\"

def isFile (entry : ArchiveEntry) : Bool := !entry.symbolicLink && !entry.isDirectory

def storedMethod : Nat := 0

def deflatedMethod : Nat := 8

def keyedMethod : Nat := 99

def isReadable (entry : ArchiveEntry) : Bool :=
  !entry.encrypted && !entry.keyed &&
    (entry.method == storedMethod || entry.method == deflatedMethod)

end ArchiveEntry

end ProfileTrace
