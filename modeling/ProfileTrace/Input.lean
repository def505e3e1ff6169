import ProfileTrace.Archive
import ProfileTrace.FileTree
import ProfileTrace.Session
import ProfileTrace.Text.Wrapping
import ProfileTrace.TraceError

/-! Where traces come from. The name of a file says what it is: a trace, or an archive,
whose first entry with the name of a trace is one. -/

namespace ProfileTrace.Input

def textEndings : List String := [".data.dump", ".data.txt"]

def archiveEnding : String := ".trace.zip"

def isTextTrace (name : String) : Bool := textEndings.any (Text.hasSuffix name)

/-- The bytes of the first entry that is a trace. Every entry up to it must be of a kind
that can be read. -/
def firstTrace (path : String) (bytes : ByteArray) :
    List ArchiveEntry → Except TraceError ByteArray
  | [] => .error (.missingArchiveEntry path)
  | entry :: entries =>
      if !entry.isReadable then .error .archive
      else if entry.isFile && isTextTrace entry.name then
        ((Archive.contents? bytes entry).map .ok).getD (.error .io)
      else firstTrace path bytes entries

def ofArchive (path : String) (bytes : ByteArray) : Except TraceError ByteArray :=
  match Archive.entries? bytes with
  | some entries => firstTrace path bytes entries
  | none => .error .archive

def trace (path : String) (content : FileContent) : Except TraceError ByteArray :=
  match content with
  | .missing => .error .io
  | .directory => .error (if isTextTrace path then .io else .archive)
  | .plain bytes => if isTextTrace path then .ok bytes else ofArchive path bytes

/-- Reads the trace at a path. A name that is neither a trace's nor an archive's is refused
before the file is looked at. -/
def read {m : Type → Type} [Monad m] (files : Files m) (options : Options) (path : String) :
    m (Except TraceError StackSource) := do
  if isTextTrace path || Text.hasSuffix path archiveEnding then
    let content ← files.read path
    return do
      let bytes ← trace path content
      (Session.read options (Reader.ofBytes bytes)).mapError fun _ => .io
  else return .error (.unsupportedInput path)

end ProfileTrace.Input
