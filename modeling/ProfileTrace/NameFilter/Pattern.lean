import ProfileTrace.NameFilter.CharSet

/-! Patterns for texts. The constructors below the type keep patterns in a normal form:
sequences lean to the right and hold neither empty parts nor two literals side by side,
choices lean to the right, and a choice between single characters or between sets is a
set. -/

namespace ProfileTrace

inductive WordEdge where
  | either
  | neither
  | start
  | finish
  | startHalf
  | finishHalf
  deriving DecidableEq, Repr

inductive Anchor where
  | textStart
  | textEnd
  /-- A line start or end; carriage returns, too, can end lines. -/
  | lineStart (withReturns : Bool)
  | lineEnd (withReturns : Bool)
  /-- The edge of a word, of ASCII characters or of any. -/
  | word (edge : WordEdge) (ascii : Bool)
  deriving DecidableEq, Repr

namespace Anchor

def atEdge (edge : WordEdge) (before after : Bool) : Bool :=
  match edge with
  | .either => before != after
  | .neither => before == after
  | .start => !before && after
  | .finish => before && !after
  | .startHalf => !before
  | .finishHalf => !after

def holds (anchor : Anchor) (before after : Option Char) : Bool :=
  match anchor with
  | textStart => before.isNone
  | textEnd => after.isNone
  | lineStart false => before.all (· == '\n')
  | lineEnd false => after.all (· == '\n')
  | lineStart true => before.all fun c => c == '\n' || (c == '\r' && after != some '\n')
  | lineEnd true => after.all fun c => c == '\r' || (c == '\n' && before != some '\r')
  | word edge ascii =>
      let chars := if ascii then CharSet.asciiWord else CharSet.word
      atEdge edge (before.any chars.contains) (after.any chars.contains)

end Anchor

inductive Pattern where
  | empty
  | literal (chars : List Char)
  | words (choices : List (List Char))
  | one (set : CharSet)
  | anchor (anchor : Anchor)
  | append (a b : Pattern)
  | either (a b : Pattern)
  /-- At least `least` times, and at most `most` times if that is given. A lazy repetition
  matches the same texts as one that is not. -/
  | repeated (least : Nat) (most : Option Nat) (isLazy : Bool) (a : Pattern)
  | group (number : Nat) (a : Pattern)
  deriving DecidableEq, Repr

namespace Pattern

/-! ### Lengths -/

/-- The length of the shortest text that matches, leaving anchors aside. -/
def shortest? : Pattern → Option Nat
  | empty | anchor _ => some 0
  | literal chars => some chars.length
  | words choices => (choices.map List.length).min?
  | one set => if set = .empty then none else some 1
  | append a b => return (← a.shortest?) + (← b.shortest?)
  | either a b => return min (← a.shortest?) (← b.shortest?)
  | repeated least _ _ a => a.shortest?.map (least * ·)
  | group _ a => a.shortest?

def longest? : Pattern → Option Nat
  | empty | anchor _ => some 0
  | literal chars => some chars.length
  | words choices => (choices.map List.length).max?
  | one set => if set = .empty then none else some 1
  | append a b => return (← a.longest?) + (← b.longest?)
  | either a b => return max (← a.longest?) (← b.longest?)
  | repeated _ most _ a => return (← most) * (← a.longest?)
  | group _ a => a.longest?

def isOnlyEmpty (p : Pattern) : Bool := p.longest? == some 0

/-! ### Normal forms -/

def oneOf (set : CharSet) : Pattern :=
  match set.only? with
  | some c => literal [c]
  | none => one set

def join : Pattern → Pattern → Pattern
  | empty, b => b
  | append a b, c => append a (join b c)
  | literal s, literal t => literal (s ++ t)
  | literal s, append (literal t) c => append (literal (s ++ t)) c
  | a, empty => a
  | a, b => append a b

def sequence (parts : List Pattern) : Pattern := parts.foldr join empty

def parts : Pattern → List Pattern
  | append a b => a :: parts b
  | p => [p]

def isSequence : Pattern → Bool
  | append _ _ => true
  | _ => false

def branches : Pattern → List Pattern
  | either a b => a :: branches b
  | words choices => choices.map literal
  | p => [p]

def literal? : Pattern → Option (List Char)
  | literal chars => some chars
  | _ => none

def letter? : Pattern → Option Char
  | literal [c] => some c
  | _ => none

def set? : Pattern → Option CharSet
  | one set => some set
  | _ => none

def commonStart : List Pattern → List Pattern → List Pattern
  | a :: as, b :: bs => if a = b then a :: commonStart as bs else []
  | _, _ => []

def sharedStart : List Pattern → List Pattern
  | [] => []
  | p :: ps =>
      if (p :: ps).all isSequence then ps.foldl (fun shared q => commonStart shared q.parts) p.parts
      else []

def plainChoice (branches : List Pattern) : Pattern :=
  match branches.mapM literal? with
  | some choices => words choices
  | none => branches.dropLast.foldr either (branches.getLast?.getD (one .empty))

/-- A choice. Single characters and sets become one set, and parts that all branches begin
with come before the choice; the first argument bounds how often they are taken out. -/
def choiceWithin : Nat → List Pattern → Pattern
  | depth, given =>
      let all := given.flatMap branches
      match all with
      | [] => one .empty
      | [p] => p
      | _ =>
          match all.mapM letter?, all.mapM set? with
          | some letters, _ => oneOf (.ofChars letters)
          | none, some sets => oneOf (.unions sets)
          | none, none =>
              let shared := sharedStart all
              match depth with
              | 0 => plainChoice all
              | depth + 1 =>
                  if shared.isEmpty then plainChoice all
                  else
                    let rests := all.map fun p => sequence (p.parts.drop shared.length)
                    sequence (shared ++ [choiceWithin depth rests])

def size : Pattern → Nat
  | empty | literal _ | one _ | anchor _ => 1
  | words choices => choices.length
  | append a b | either a b => a.size + b.size + 1
  | repeated _ _ _ a | group _ a => a.size + 1

def choice (branches : List Pattern) : Pattern :=
  choiceWithin (branches.foldl (fun total p => total + p.size) 0) branches

/-- A pattern so many times. Where only the empty text matches, once is as good as often,
and a pattern once is the pattern itself. -/
def times (least : Nat) (most : Option Nat) (isLazy : Bool) (p : Pattern) : Pattern :=
  let (least, most) :=
    if p.isOnlyEmpty then (min least 1, some (min (most.getD 1) 1)) else (least, most)
  if most = some 0 then empty
  else if least = 1 ∧ most = some 1 then p
  else repeated least most isLazy p

end Pattern

end ProfileTrace
