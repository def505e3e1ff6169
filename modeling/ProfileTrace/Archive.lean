import ProfileTrace.Archive.Directory
import ProfileTrace.Archive.Inflate

/-! Archives of files in the zip format. The directory at the end of an archive lists its
entries; each has a header of its own before its bytes, which are stored as they are or
compressed, and a check sum. -/

namespace ProfileTrace.Archive

/-- Of entries with one name the last one, at the place of the first. -/
def lastOfEachName (entries : List ArchiveEntry) : List ArchiveEntry :=
  entries.foldl
    (fun kept entry =>
      if kept.any (·.name == entry.name) then
        kept.map fun other => if other.name == entry.name then entry else other
      else kept ++ [entry])
    []

def entries? (bytes : ByteArray) : Option (List ArchiveEntry) :=
  (places bytes directoryEndMark 0 bytes.size).reverse.findSome? fun place => do
    let entries ← (← directory? bytes place).entries? bytes
    return lastOfEachName entries

def contents? (bytes : ByteArray) (entry : ArchiveEntry) : Option ByteArray := do
  let offset ← dataOffset? bytes entry
  let stored := bytes.extract offset (offset + entry.compressedSize)
  let plain ←
    if entry.method = ArchiveEntry.deflatedMethod then Inflate.inflate stored else some stored
  guard (checkSum plain = entry.checkSum)
  return plain

end ProfileTrace.Archive
