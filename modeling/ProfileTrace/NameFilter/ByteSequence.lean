import ProfileTrace.NameFilter.CharSet

/-! Sets of characters as sequences of byte ranges in UTF-8. A range of characters is cut
into pieces whose encodings are all combinations of bytes from one range for each place. -/

namespace ProfileTrace

structure ByteRange where
  first : UInt8
  last : UInt8
  deriving DecidableEq, Repr

abbrev ByteSequence := List ByteRange

namespace ByteSequence

def blockSizes : List Nat := [0x40, 0x1000, 0x40000]

/-- The characters whose encodings have the same length, and on either side of the
surrogates, which have none. -/
def lengthRanges : List (Nat × Nat) :=
  [(0, 0x7F), (0x80, 0x7FF), (0x800, 0xD7FF), (0xE000, 0xFFFF), (0x10000, 0x10FFFF)]

/-- A range cut where its ends are within a block: a beginning and an end that do not fill
their blocks, and between them whole blocks, which are cut again by the larger sizes. -/
def pieces : List Nat → (first last : Nat) → List (Nat × Nat)
  | [], first, last => [(first, last)]
  | size :: sizes, first, last =>
      if first / size = last / size then [(first, last)]
      else
        let start := (first + size - 1) / size * size
        let stop := (last + 1) / size * size
        (if first < start then [(first, start - 1)] else []) ++
          (if start < stop then pieces sizes start (stop - 1) else []) ++
          if stop ≤ last then [(stop, last)] else []

def ofPiece (first last : Nat) : ByteSequence :=
  let bytes (n : Nat) : List UInt8 := String.utf8EncodeChar (Char.ofNat n)
  (bytes first).zipWith ByteRange.mk (bytes last)

def ofRange (first last : Nat) : List ByteSequence :=
  lengthRanges.flatMap fun (least, most) =>
    let first := max first least
    let last := min last most
    if last < first then []
    else if most = 0x7F then [ofPiece first last]
    else (pieces blockSizes first last).map fun (first, last) => ofPiece first last

def ofSet (set : CharSet) : List ByteSequence :=
  set.ranges.flatMap fun (first, last) => ofRange first last

/-! ### Sequences as a tree -/

def longest : Nat := 4

def byFirst (sequences : List ByteSequence) : List (List ByteSequence) :=
  (sequences.splitBy fun a b => a.head? == b.head?).map (·.map List.tail)

def isLeaf (sequences : List ByteSequence) : Bool := sequences.all List.isEmpty

/-- What can follow after the beginnings of sequences up to a length, the empty one
included: the inner nodes of the tree. -/
def followers : Nat → List ByteSequence → List (List ByteSequence)
  | 0, _ => []
  | length + 1, sequences =>
      if isLeaf sequences then []
      else sequences :: (byFirst sequences).flatMap (followers length)

def beginningCount : Nat → List ByteSequence → Nat
  | 0, _ => 0
  | length + 1, sequences =>
      if isLeaf sequences then 0
      else ((byFirst sequences).map fun rests => 1 + beginningCount length rests).sum

end ByteSequence

end ProfileTrace
