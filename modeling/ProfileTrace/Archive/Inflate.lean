/-! Decompression of the deflate format: blocks of literal bytes and of copies from what
was written before, coded by prefix codes that a block may define itself. Bits are taken
from the low end of each byte. -/

namespace ProfileTrace.Inflate

/-! Readers take the position of a bit and give a value with the position after it. -/

def bitAt (bytes : ByteArray) (place : Nat) : Option (Nat × Nat) :=
  (bytes[place / 8]?).map fun b => ((b.toNat >>> (place % 8)) % 2, place + 1)

/-- A number of so many bits, the low one first. -/
def bits (bytes : ByteArray) : Nat → Nat → Option (Nat × Nat)
  | 0, place => some (0, place)
  | count + 1, place => do
      let (low, place) ← bitAt bytes place
      let (high, place) ← bits bytes count place
      return (low + 2 * high, place)

/-- A canonical prefix code: how many codes there are of each length from one on, and the
symbols in the order of their codes. -/
structure Code where
  counts : List Nat
  symbols : Array Nat

def longestCode : Nat := 15

def Code.ofLengths (lengths : List Nat) : Code where
  counts := (List.range longestCode).map fun length => lengths.count (length + 1)
  symbols := ((List.range longestCode).flatMap fun length =>
    lengths.zipIdx.filterMap fun (found, symbol) =>
      if found = length + 1 then some symbol else none).toArray

/-- How much of all codes the code uses, in units of its longest ones. -/
def Code.share (code : Code) : Nat :=
  code.counts.foldl (fun total count => 2 * total + count) 0

def Code.isComplete (code : Code) : Bool := code.share == Nat.pow 2 longestCode

/-- Whether literals or distances may have the code: a code with one symbol or none need
not be complete. -/
def Code.isUsable (code : Code) : Bool := code.isComplete || code.symbols.size ≤ 1

/-- Reads a symbol bit by bit: `first` is the first code of the current length and
`before` the number of symbols with shorter ones. -/
def walk (bytes : ByteArray) (symbols : Array Nat) :
    List Nat → (code first before place : Nat) → Option (Nat × Nat)
  | [], _, _, _, _ => none
  | count :: longer, code, first, before, place => do
      let (bit, place) ← bitAt bytes place
      let code := 2 * code + bit
      let first := 2 * first
      if code < first + count then
        let symbol ← symbols[before + (code - first)]?
        return (symbol, place)
      else walk bytes symbols longer code (first + count) (before + count) place

def Code.read (code : Code) (bytes : ByteArray) (place : Nat) : Option (Nat × Nat) :=
  walk bytes code.symbols code.counts 0 0 0 place

/-- The least length and the number of further bits of each length symbol. -/
def lengthSymbols : Array (Nat × Nat) :=
  #[(3, 0), (4, 0), (5, 0), (6, 0), (7, 0), (8, 0), (9, 0), (10, 0), (11, 1), (13, 1), (15, 1),
    (17, 1), (19, 2), (23, 2), (27, 2), (31, 2), (35, 3), (43, 3), (51, 3), (59, 3), (67, 4),
    (83, 4), (99, 4), (115, 4), (131, 5), (163, 5), (195, 5), (227, 5), (258, 0)]

def distanceSymbols : Array (Nat × Nat) :=
  #[(1, 0), (2, 0), (3, 0), (4, 0), (5, 1), (7, 1), (9, 2), (13, 2), (17, 3), (25, 3), (33, 4),
    (49, 4), (65, 5), (97, 5), (129, 6), (193, 6), (257, 7), (385, 7), (513, 8), (769, 8),
    (1025, 9), (1537, 9), (2049, 10), (3073, 10), (4097, 11), (6145, 11), (8193, 12),
    (12289, 12), (16385, 13), (24577, 13)]

def extended (bytes : ByteArray) (table : Array (Nat × Nat)) (symbol place : Nat) : Option (Nat × Nat) := do
  let (least, width) ← table[symbol]?
  let (more, place) ← bits bytes width place
  return (least + more, place)

/-- Appends `length` bytes, each a copy of the one `distance` places before it. Before
the first byte written there are zeros. -/
def copyBack (distance : Nat) : Nat → ByteArray → ByteArray
  | 0, written => written
  | length + 1, written =>
      let copied := if distance ≤ written.size then written[written.size - distance]? else none
      copyBack distance length (written.push (copied.getD 0))

def readCoded (bytes : ByteArray) (literals distances : Code) (place : Nat)
    (written : ByteArray) : Option (ByteArray × Nat) := do
  let (symbol, next) ← literals.read bytes place
  let goOn (next : Nat) (written : ByteArray) : Option (ByteArray × Nat) :=
    if _forward : place < next ∧ next ≤ 8 * bytes.size then
      readCoded bytes literals distances next written
    else none
  if symbol < 256 then goOn next (written.push (UInt8.ofNat symbol))
  else if symbol = 256 then some (written, next)
  else
    let (length, next) ← extended bytes lengthSymbols (symbol - 257) next
    let (symbol, next) ← distances.read bytes next
    let (distance, next) ← extended bytes distanceSymbols symbol next
    goOn next (copyBack distance length written)
termination_by 8 * bytes.size - place

def fixedCodes : Code × Code :=
  (Code.ofLengths (List.replicate 144 8 ++ List.replicate 112 9 ++ List.replicate 24 7 ++
      List.replicate 8 8),
    Code.ofLengths (List.replicate 30 5))

def lengthOrder : List Nat :=
  [16, 17, 18, 0, 8, 7, 9, 6, 10, 5, 11, 4, 12, 3, 13, 2, 14, 1, 15]

def readWidths (bytes : ByteArray) : Nat → Nat → Option (List Nat × Nat)
  | 0, place => some ([], place)
  | count + 1, place => do
      let (width, place) ← bits bytes 3 place
      let (widths, place) ← readWidths bytes count place
      return (width :: widths, place)

/-- Reads code lengths until there are `count` of them; `found` holds them in reverse. -/
def readLengths (bytes : ByteArray) (code : Code) (count place : Nat) (found : List Nat) :
    Option (List Nat × Nat) :=
  if found.length = count then some (found.reverse, place)
  else if count < found.length then none
  else do
    let (symbol, next) ← code.read bytes place
    let goOn (times value next : Nat) : Option (List Nat × Nat) :=
      if _forward : place < next ∧ next ≤ 8 * bytes.size then
        readLengths bytes code count next (List.replicate times value ++ found)
      else none
    match symbol with
    | 16 =>
        let (more, next) ← bits bytes 2 next
        goOn (3 + more) (← found.head?) next
    | 17 =>
        let (more, next) ← bits bytes 3 next
        goOn (3 + more) 0 next
    | 18 =>
        let (more, next) ← bits bytes 7 next
        goOn (11 + more) 0 next
    | length => goOn 1 length next
termination_by 8 * bytes.size - place

def mostLiterals : Nat := 286
def mostDistances : Nat := 30

def readCodes (bytes : ByteArray) (place : Nat) : Option ((Code × Code) × Nat) := do
  let (literals, place) ← bits bytes 5 place
  let (distances, place) ← bits bytes 5 place
  let (widths, place) ← bits bytes 4 place
  let literals := literals + 257
  let distances := distances + 1
  guard (literals ≤ mostLiterals && distances ≤ mostDistances)
  let (given, place) ← readWidths bytes (widths + 4) place
  let width (symbol : Nat) : Nat := ((lengthOrder.zip given).lookup symbol).getD 0
  let code := Code.ofLengths ((List.range 19).map width)
  guard code.isComplete
  let (lengths, place) ← readLengths bytes code (literals + distances) place []
  let literalCode := Code.ofLengths (lengths.take literals)
  let distanceCode := Code.ofLengths (lengths.drop literals)
  guard (literalCode.isUsable && distanceCode.isUsable)
  return ((literalCode, distanceCode), place)

/-- Reads a block of plain bytes: after the current byte its length, twice, and the bytes. -/
def readPlain (bytes : ByteArray) (place : Nat) (written : ByteArray) : Option (ByteArray × Nat) := do
  let start := (place + 7) / 8
  let (length, _) ← bits bytes 16 (8 * start)
  let (check, _) ← bits bytes 16 (8 * start + 16)
  if length + check = 0xFFFF ∧ start + 4 + length ≤ bytes.size then
    return (written ++ bytes.extract (start + 4) (start + 4 + length), 8 * (start + 4 + length))
  else none

def readBlock (bytes : ByteArray) (kind place : Nat) (written : ByteArray) : Option (ByteArray × Nat) :=
  match kind with
  | 0 => readPlain bytes place written
  | 1 => readCoded bytes fixedCodes.1 fixedCodes.2 place written
  | 2 => do
      let ((literals, distances), place) ← readCodes bytes place
      readCoded bytes literals distances place written
  | _ => none

def readBlocks (bytes : ByteArray) (place : Nat) (written : ByteArray) : Option ByteArray := do
  let (last, next) ← bits bytes 1 place
  let (kind, next) ← bits bytes 2 next
  let (written, next) ← readBlock bytes kind next written
  if last = 1 then some written
  else if _forward : place < next ∧ next ≤ 8 * bytes.size then readBlocks bytes next written
  else none
termination_by 8 * bytes.size - place

def inflate (bytes : ByteArray) : Option ByteArray := readBlocks bytes 0 .empty

end ProfileTrace.Inflate
