import ProfileTrace.NameFilter.ByteSequence
import ProfileTrace.NameFilter.Pattern

/-! How large the automata of a pattern are. Short patterns can describe very large ones,
so that a pattern is refused by the size of the automata that read a text forward and
backward, byte by byte. The sizes follow from the pattern; no automaton is built. -/

namespace ProfileTrace

inductive Direction where
  | forward
  | backward
  deriving DecidableEq, Repr

namespace Pattern

/-! ### Units, in bytes -/

def stateSize : Nat := 32

/-- A range of bytes in a state with several of them, and the state that it leads to. -/
def transitionSize : Nat := 8

def branchSize : Nat := 4

def largestAutomaton : Nat := 0xA00000

/-! ### Sets and words -/

/-- A set read forward has a state for each of the different ways in which sequences can go
on, and backward one for each of their different beginnings. -/
def setSize (direction : Direction) (set : CharSet) : Nat :=
  if set.isAscii then 2 * stateSize + transitionSize * set.ranges.length
  else
    let sequences := ByteSequence.ofSet set
    match direction with
    | .forward =>
        let nodes := (ByteSequence.followers ByteSequence.longest sequences).eraseDups
        let nodeSize (node : List ByteSequence) : Nat :=
          stateSize + transitionSize * (ByteSequence.byFirst node).length
        nodes.foldl (fun total node => total + nodeSize node) stateSize
    | .backward =>
        2 * stateSize +
          stateSize * ByteSequence.beginningCount ByteSequence.longest sequences +
          branchSize * sequences.length

/-- A list cut at its empty members, those at the very beginning counted as one. -/
def chunks (texts : List (List UInt8)) : List (List (List UInt8)) :=
  match texts with
  | [] :: rest => [] :: cut [] (rest.dropWhile List.isEmpty)
  | _ => cut [] texts
where
  /-- Goes on with a chunk, given in reverse. -/
  cut (chunk : List (List UInt8)) : List (List UInt8) → List (List (List UInt8))
    | [] => [chunk.reverse]
    | [] :: rest => chunk.reverse :: cut [] rest
    | text :: rest => cut (text :: chunk) rest

def byFirstByte (texts : List (List UInt8)) : List (List (List UInt8)) :=
  (texts.filterMap List.head?).eraseDups.map fun b =>
    texts.filterMap fun text => if text.head? = some b then some text.tail else none

/-- The tree of texts up to a length, without its end. Each inner node is a fork between
its chunks of texts and, between any two chunks, the end. -/
def treeSize : Nat → List (List UInt8) → Nat
  | 0, _ => 0
  | length + 1, texts =>
      if texts.all List.isEmpty then 0
      else
        let found := chunks texts
        let chunkSize (chunk : List (List UInt8)) : Nat :=
          let following := byFirstByte chunk
          let width := following.length
          (if width = 0 then 0
            else branchSize + stateSize + if width = 1 then 0 else transitionSize * width) +
            (following.map (treeSize length)).sum
        stateSize + branchSize * (found.length - 1) + (found.map chunkSize).sum

def utf8 (chars : List Char) : List UInt8 := chars.flatMap String.utf8EncodeChar

def wordsSize (direction : Direction) (choices : List (List Char)) : Nat :=
  let texts := choices.map fun chars =>
    match direction with
    | .forward => utf8 chars
    | .backward => (utf8 chars).reverse
  stateSize + treeSize ((texts.map List.length).foldl max 0) texts

/-! ### Patterns -/

/-- Whether the automaton's last state is a fork, to which what follows is one more
branch. -/
def endsInFork (direction : Direction) : Pattern → Bool
  | append a b =>
      match direction with
      | .forward => b.endsInFork direction
      | .backward => a.endsInFork direction
  | repeated least none _ a => 0 < least || a.shortest?.any (0 < ·)
  | repeated least (some most) _ a => least = most && a.endsInFork direction
  | group _ a => direction = .backward && a.endsInFork direction
  | _ => false

def linkSize (direction : Direction) (p : Pattern) : Nat :=
  if p.endsInFork direction then branchSize else 0

def isChoice : Pattern → Bool
  | either _ _ => true
  | _ => false

def repeatedSize (size link least : Nat) (most : Option Nat) (needsText : Bool) : Nat :=
  match most with
  | none =>
      if 0 < least then least * (size + link) + stateSize + branchSize
      else if needsText then stateSize + size + branchSize + link
      else 3 * stateSize + size + 4 * branchSize + link
  | some most =>
      if least = most then least * size + (least - 1) * link
      else if least = 0 ∧ most = 1 then 2 * stateSize + size + 2 * branchSize + link
      else
        (if least = 0 then stateSize else least * (size + link)) + stateSize +
          (most - least) * (stateSize + 2 * branchSize + size + link)

/-- The size of the automaton. Only the forward one keeps the places of groups. -/
def automatonSize (direction : Direction) : Pattern → Nat
  | empty | anchor _ => stateSize
  | literal chars => stateSize * (utf8 chars).length
  | words choices => wordsSize direction choices
  | one set => setSize direction set
  | append a b =>
      a.automatonSize direction + b.automatonSize direction +
        (match direction with
          | .forward => a.linkSize direction
          | .backward => b.linkSize direction)
  | either a b =>
      let last := b.automatonSize direction
      branchSize + a.automatonSize direction + a.linkSize direction +
        if b.isChoice then last
        else 2 * stateSize + branchSize + last + b.linkSize direction
  | repeated least most _ a =>
      repeatedSize (a.automatonSize direction) (a.linkSize direction) least most
        (a.shortest?.any (0 < ·))
  | group _ a =>
      let size := a.automatonSize direction
      match direction with
      | .forward => 2 * stateSize + size + a.linkSize direction
      | .backward => size

def beginsAt (condition : Anchor) : Pattern → Bool
  | anchor found => found = condition
  | append a b => a.beginsAt condition || (a.isOnlyEmpty && b.beginsAt condition)
  | either a b => a.beginsAt condition && b.beginsAt condition
  | repeated least _ _ a => 0 < least && a.beginsAt condition
  | group _ a => a.beginsAt condition
  | _ => false

def endsAt (condition : Anchor) : Pattern → Bool
  | anchor found => found = condition
  | append a b => b.endsAt condition || (b.isOnlyEmpty && a.endsAt condition)
  | either a b => a.endsAt condition && b.endsAt condition
  | repeated least _ _ a => 0 < least && a.endsAt condition
  | group _ a => a.endsAt condition
  | _ => false

/-- What an automaton begins with: a search from every place, unless there is only one. -/
def searchSize (anchored : Bool) : Nat :=
  if anchored then stateSize else 3 * stateSize + transitionSize + 2 * branchSize

/-- The size of the automaton that finds the pattern in a text. Forward, the whole match is
a group. -/
def searcherSize (direction : Direction) (p : Pattern) : Nat :=
  let size := p.automatonSize direction + p.linkSize direction + stateSize
  match direction with
  | .forward => searchSize (p.beginsAt .textStart) + 2 * stateSize + size
  | .backward => searchSize (p.endsAt .textEnd) + size

def isAffordable (p : Pattern) : Bool :=
  p.searcherSize .forward ≤ largestAutomaton && p.searcherSize .backward ≤ largestAutomaton

end Pattern

end ProfileTrace
