/-! The cyclic check sum of 32 bits, by which an archive tells damaged bytes. -/

namespace ProfileTrace.Archive

/-- One bit of the check sum: a shift, and the polynomial for each bit shifted out. -/
def checkSumBit (sum : UInt32) : UInt32 :=
  if sum &&& 1 = 1 then (sum >>> 1) ^^^ 0xEDB88320 else sum >>> 1

def checkSumByte (sum : UInt32) (b : UInt8) : UInt32 :=
  (List.range 8).foldl (fun sum _ => checkSumBit sum) (sum ^^^ b.toUInt32)

def checkSum (bytes : ByteArray) : Nat :=
  (bytes.foldl checkSumByte 0xFFFFFFFF ^^^ 0xFFFFFFFF).toNat

end ProfileTrace.Archive
