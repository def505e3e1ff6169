import ProfileTrace.NameFilter.Pattern

/-! Where patterns match in a text. For each place of the text a pattern has a set of
distances to the places where a match that begins there ends; sets of distances are kept as
the bits of a number. These tables are put together as the patterns are, so that a pattern
costs no more than its parts do, however often they are repeated. -/

namespace ProfileTrace

structure TextPlace where
  before : Option Char
  rest : List Char

namespace TextPlace

def after (p : TextPlace) : Option Char := p.rest.head?

def all (before : Option Char) : List Char → List TextPlace
  | [] => [{ before, rest := [] }]
  | c :: rest => { before, rest := c :: rest } :: all (some c) rest

end TextPlace

/-- For each place of a text the distances to the ends of the matches from there. -/
abbrev Spans := List Nat

namespace Spans

def here : Nat := 1

/-- The distances that are reached by first going one of the given ones from the first
place of the table. -/
def through : Spans → Nat → Nat
  | [], _ => 0
  | row :: rows, distances =>
      if distances = 0 then 0
      else (if distances.testBit 0 then row else 0) ||| (through rows (distances >>> 1) <<< 1)

def compose : Spans → Spans → Spans
  | a :: as, b :: bs => through (b :: bs) a :: compose as bs
  | _, _ => []

def union (a b : Spans) : Spans := a.zipWith (· ||| ·) b

def stay (spans : Spans) : Spans := spans.map fun _ => here

def power (spans : Spans) (count : Nat) : Spans :=
  if count = 0 then stay spans
  else
    let half := power spans (count / 2)
    let twice := compose half half
    if count % 2 = 0 then twice else compose spans twice
termination_by count

def closure : Spans → Spans
  | [] => []
  | row :: rows =>
      let later := closure rows
      (here ||| (through later (row >>> 1) <<< 1)) :: later

/-- At most so many matches. As many as there are places do what any number does, since a
match that does not move on can be left out. -/
def upTo (spans : Spans) (most : Nat) : Spans :=
  if spans.length ≤ most then closure spans else power (union (stay spans) spans) most

/-- At least and at most so many matches. Of more matches than places one does not move on,
and can stand any number of times. -/
def repeated (spans : Spans) (least : Nat) (most : Option Nat) : Spans :=
  compose (power spans (min least spans.length))
    (match most with
      | none => closure spans
      | some most => upTo spans (most - least))

end Spans

namespace Pattern

def literalSpan (chars : List Char) (place : TextPlace) : Nat :=
  if chars.isPrefixOf place.rest then 1 <<< chars.length else 0

def spans (places : List TextPlace) : Pattern → Spans
  | empty => places.map fun _ => Spans.here
  | literal chars => places.map (literalSpan chars)
  | words choices =>
      places.map fun place => choices.foldl (fun found chars => found ||| literalSpan chars place) 0
  | one set => places.map fun place => if place.after.any set.contains then 1 <<< 1 else 0
  | anchor condition =>
      places.map fun place => if condition.holds place.before place.after then Spans.here else 0
  | append a b => Spans.compose (a.spans places) (b.spans places)
  | either a b => Spans.union (a.spans places) (b.spans places)
  | repeated least most _ a => Spans.repeated (a.spans places) least most
  | group _ a => a.spans places

def isFoundIn (pattern : Pattern) (text : String) : Bool :=
  (pattern.spans (TextPlace.all none text.toList)).any (· != 0)

end Pattern

end ProfileTrace
