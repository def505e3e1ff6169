import ProfileTrace.CommandLine.Program

/-! The program on the files of a disk. -/

namespace ProfileTrace

def readDisk (path : String) : IO FileContent := do
  try return .plain (← IO.FS.readBinFile path)
  catch _ =>
    try
      let found ← IO.FS.realPath path
      return if ← found.isDir then .directory else .missing
    catch _ => return .missing

def writeDisk (path text : String) : IO Bool := do
  try
    IO.FS.writeFile path text
    return true
  catch _ => return false

def disk : Files IO where
  read := readDisk
  write := writeDisk

end ProfileTrace

open ProfileTrace in
def main (arguments : List String) : IO UInt32 := do
  let outcome ← Program.run disk arguments
  (← IO.getStdout).putStr outcome.output
  if let some complaint := outcome.complaint then
    (← IO.getStderr).putStrLn complaint
  return UInt32.ofNat outcome.code
