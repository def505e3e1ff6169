import ProfileTrace.NameFilter.CharTable

/-! Sets of characters as patterns write them: ranges, their combinations, and closure
under letter case. A set is kept as the numbers at which membership changes, so that every
combination is one walk along two such lists. Event names hold characters up to U+00FF;
case partners are given for those. -/

namespace ProfileTrace

/-- The numbers, in increasing order, from which on membership is the opposite of what it
was before; the number zero is preceded by no member. -/
structure CharSet where
  changes : List Nat
  deriving DecidableEq, Repr

namespace CharSet

def contains (s : CharSet) (c : Char) : Bool :=
  (s.changes.takeWhile (· ≤ c.toNat)).length % 2 == 1

def empty : CharSet := ⟨[]⟩

/-! ### Combinations -/

def combineFrom (op : Bool → Bool → Bool) (inA inB : Bool) (as bs : List Nat) : List Nat :=
  match as, bs with
  | [], [] => []
  | a :: as, [] => stepTo op inA inB a (!inA) inB ++ combineFrom op (!inA) inB as []
  | [], b :: bs => stepTo op inA inB b inA (!inB) ++ combineFrom op inA (!inB) [] bs
  | a :: as, b :: bs =>
      if a < b then stepTo op inA inB a (!inA) inB ++ combineFrom op (!inA) inB as (b :: bs)
      else if b < a then
        stepTo op inA inB b inA (!inB) ++ combineFrom op inA (!inB) (a :: as) bs
      else stepTo op inA inB a (!inA) (!inB) ++ combineFrom op (!inA) (!inB) as bs
termination_by as.length + bs.length
where
  /-- The place, if the combination changes there. -/
  stepTo (op : Bool → Bool → Bool) (inA inB : Bool) (place : Nat) (nextA nextB : Bool) :
      List Nat :=
    if op inA inB == op nextA nextB then [] else [place]

/-- The set of the characters for which the operation holds of their membership in each;
it must not hold of two that are false. -/
def combine (op : Bool → Bool → Bool) (a b : CharSet) : CharSet :=
  ⟨combineFrom op false false a.changes b.changes⟩

def union : CharSet → CharSet → CharSet := combine (· || ·)
def intersection : CharSet → CharSet → CharSet := combine (· && ·)
def difference : CharSet → CharSet → CharSet := combine fun inA inB => inA && !inB
def symmetricDifference : CharSet → CharSet → CharSet := combine (· != ·)

/-- All characters: the numbers up to U+10FFFF without the surrogates. -/
def full : CharSet := ⟨[0, 0xD800, 0xE000, 0x110000]⟩

def complement (s : CharSet) : CharSet := difference full s

def range (first last : Char) : CharSet := intersection full ⟨[first.toNat, last.toNat + 1]⟩

def single (c : Char) : CharSet := range c c

def unions (sets : List CharSet) : CharSet := sets.foldr union empty

def ofChars (chars : List Char) : CharSet := unions (chars.map single)

def ofRanges (ranges : List (Nat × Nat)) : CharSet :=
  ⟨ranges.flatMap fun (first, last) => [first, last + 1]⟩

def ranges (s : CharSet) : List (Nat × Nat) := pairUp s.changes
where
  pairUp : List Nat → List (Nat × Nat)
    | first :: past :: rest => (first, past - 1) :: pairUp rest
    | _ => []

def only? (s : CharSet) : Option Char :=
  match s.ranges with
  | [(first, last)] => if first = last then some (Char.ofNat first) else none
  | _ => none

def isAscii (s : CharSet) : Bool := s.changes.all (· ≤ 0x80)

/-! ### Letter case -/

/-- The difference between the number of a small letter and its capital's, for the letters
of one alphabet. -/
def caseShift : Nat := 32

def shiftedCapitals : List Char :=
  ((List.range 0xDF).map Char.ofNat).filter fun c =>
    ('A' ≤ c && c ≤ 'Z') || ('\u00C0' ≤ c && c != '\u00D7')

/-- Characters that stand for one letter, where one of them is up to U+00FF. -/
def caseOrbits : List (List Char) :=
  shiftedCapitals.map (fun c => [c, Char.ofNat (c.toNat + caseShift)]) ++
    [['K', 'k', '\u212A'], ['S', 's', '\u017F'], ['\u00C5', '\u00E5', '\u212B'],
      ['\u00B5', '\u03BC', '\u039C'], ['\u00DF', '\u1E9E'], ['\u00FF', '\u0178']]

def fold (s : CharSet) : CharSet :=
  caseOrbits.foldr
    (fun orbit folded => if orbit.any s.contains then union (ofChars orbit) folded else folded) s

def foldAscii (s : CharSet) : CharSet :=
  caseOrbits.foldr
    (fun orbit folded =>
      if orbit.all (· ≤ 'z') && orbit.any s.contains then union (ofChars orbit) folded
      else folded) s

/-! ### Sets with a name -/

def digit : CharSet := ofRanges digitRanges

def word : CharSet := ofRanges wordRanges

def blank : CharSet :=
  ofRanges [(0x09, 0x0D), (0x20, 0x20), (0x85, 0x85), (0xA0, 0xA0), (0x1680, 0x1680),
    (0x2000, 0x200A), (0x2028, 0x2029), (0x202F, 0x202F), (0x205F, 0x205F), (0x3000, 0x3000)]

def asciiDigit : CharSet := range '0' '9'

def asciiWord : CharSet := unions [asciiDigit, range 'A' 'Z', single '_', range 'a' 'z']

def asciiBlank : CharSet := union (range '\t' '\r') (single ' ')

def named? : String → Option CharSet
  | "alnum" => some (unions [asciiDigit, range 'A' 'Z', range 'a' 'z'])
  | "alpha" => some (union (range 'A' 'Z') (range 'a' 'z'))
  | "ascii" => some (range '\x00' '\x7F')
  | "blank" => some (ofChars ['\t', ' '])
  | "cntrl" => some (union (range '\x00' '\x1F') (single '\x7F'))
  | "digit" => some asciiDigit
  | "graph" => some (range '!' '~')
  | "lower" => some (range 'a' 'z')
  | "print" => some (range ' ' '~')
  | "punct" => some (unions [range '!' '/', range ':' '@', range '[' '\x60', range '\x7B' '~'])
  | "space" => some asciiBlank
  | "upper" => some (range 'A' 'Z')
  | "word" => some asciiWord
  | "xdigit" => some (unions [asciiDigit, range 'A' 'F', range 'a' 'f'])
  | _ => none

end CharSet

end ProfileTrace
