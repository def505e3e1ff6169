import ProfileTrace.NameFilter.Escape

/-! Bracketed sets of characters: items, ranges, nested sets, named classes, and operators
between them. The sets that are open are kept on a stack, each with the height of what it
was written as, since patterns that are nested too deep are refused. -/

namespace ProfileTrace.NameFilter
open CharSet

/-- A bracketed set that is open: the items since the last operator, how many there are and
the greatest height of one, and the operand before the operator with its height. -/
structure OpenSet where
  negated : Bool
  items : CharSet := empty
  count : Nat := 0
  height : Nat := 0
  pending : Option ((CharSet → CharSet → CharSet) × CharSet × Nat) := none

namespace OpenSet

def add (s : OpenSet) (item : CharSet) (height : Nat) : OpenSet :=
  { s with
    items := union s.items item
    count := s.count + 1
    height := max s.height height }

def itemsHeight (s : OpenSet) : Nat := if s.count ≤ 1 then s.height else s.height + 1

def combined (flags : Flags) (s : OpenSet) : CharSet × Nat :=
  match s.pending with
  | none => (s.items, s.itemsHeight)
  | some (operator, left, height) =>
      (operator (flags.withCase left) (flags.withCase s.items), max height s.itemsHeight + 1)

def operator (flags : Flags) (s : OpenSet) (operator : CharSet → CharSet → CharSet) : OpenSet :=
  { negated := s.negated, pending := some (operator, s.combined flags) }

/-- The set as a whole, folded first and only then turned round, and its height. -/
def close? (flags : Flags) (s : OpenSet) : Option (CharSet × Nat) := do
  let (set, height) := s.combined flags
  let set := flags.withCase set
  return (← if s.negated then flags.complement? set else some set, height + 1)

/-- The beginning of a set after its bracket: a caret, hyphens that stand for themselves,
and a closing bracket that does when it comes first. -/
def begin (flags : Flags) (chars : List Char) : OpenSet × List Char :=
  let (negated, rest) :=
    match flags.skip chars with
    | '^' :: rest => (true, flags.skip rest)
    | rest => (false, rest)
  let (hyphens, rest) := flags.takeWhile (· == '-') rest
  let s : OpenSet := hyphens.foldl (fun s c => s.add (single c) 0) { negated }
  match hyphens, rest with
  | [], ']' :: rest => (s.add (single ']') 0, rest)
  | _, rest => (s, rest)

end OpenSet

def namedSet? (chars : List Char) : Option ((Bool × CharSet) × List Char) :=
  match chars with
  | ':' :: chars =>
      let (negated, chars) :=
        match chars with
        | '^' :: rest => (true, rest)
        | _ => (false, chars)
      match chars.span (· != ':') with
      | (name, ':' :: ']' :: rest) =>
          (named? (String.ofList name)).map fun set => ((negated, set), rest)
      | _ => none
  | _ => none

def setItem (flags : Flags) : List Char → Option (Escape × List Char)
  | '\\' :: rest => escape flags rest
  | c :: rest => some (.literal c, rest)
  | [] => none

def isSetMember (flags : Flags) (c : Char) : Bool := !flags.ascii || c.toNat < 0x80

/-- An item, or the range that it begins. A hyphen before a closing bracket or another
hyphen begins no range. -/
def setRange (flags : Flags) (chars : List Char) : Option (CharSet × List Char) := do
  let (first, rest) ← setItem flags chars
  let rest := flags.skip rest
  let alone : Option (CharSet × List Char) :=
    match first with
    | .literal c => if isSetMember flags c then some (single c, rest) else none
    | .set set => some (set, rest)
    | .anchor _ => none
  match rest with
  | '-' :: tail =>
      let tail := flags.skip tail
      if tail.head? = some ']' ∨ tail.head? = some '-' then alone
      else
        let (last, rest) ← setItem flags tail
        match first, last with
        | .literal a, .literal b =>
            if a ≤ b && isSetMember flags b then some (range a b, rest) else none
        | _, _ => none
  | _ => alone

/-- Reads the rest of a set, innermost first of the open ones. The first argument bounds the
characters that are left. -/
def readSet (flags : Flags) :
    Nat → OpenSet → List OpenSet → List Char → Option ((CharSet × Nat) × List Char)
  | 0, _, _, _ => none
  | bound + 1, inner, outer, chars =>
      match flags.skip chars with
      | [] => none
      | '[' :: rest =>
          match namedSet? rest with
          | some ((negated, set), rest) => do
              let set := flags.withCase set
              let set ← if negated then flags.complement? set else some set
              readSet flags bound (inner.add set 0) outer rest
          | none =>
              let (nested, rest) := OpenSet.begin flags rest
              readSet flags bound nested (inner :: outer) rest
      | ']' :: rest =>
          match outer, inner.close? flags with
          | _, none => none
          | [], some closed => some (closed, rest)
          | parent :: others, some (set, height) =>
              readSet flags bound (parent.add set height) others rest
      | '&' :: '&' :: rest => readSet flags bound (inner.operator flags intersection) outer rest
      | '-' :: '-' :: rest => readSet flags bound (inner.operator flags difference) outer rest
      | '~' :: '~' :: rest =>
          readSet flags bound (inner.operator flags symmetricDifference) outer rest
      | chars => do
          let (set, rest) ← setRange flags chars
          readSet flags bound (inner.add set 0) outer rest

end ProfileTrace.NameFilter
