import ProfileTrace.NameFilter.AutomatonSize
import ProfileTrace.NameFilter.Bracket

/-! Reading patterns from their text. Groups are kept on a stack while their contents are
read. Nothing is guessed: a text that is not a pattern has none, and neither has one that
is nested too deep or whose automata would be too large. -/

namespace ProfileTrace.NameFilter

/-- The greatest height of what a pattern is written as. Repetitions, groups, brackets,
sequences and choices are each one higher than what is in them. -/
def greatestHeight : Nat := 250

/-! ### Counts -/

def decimal? (flags : Flags) (chars : List Char) : Option (Nat × List Char) :=
  let (digits, rest) := flags.takeWhile Char.isDigit (chars.dropWhile CharSet.blank.contains)
  let value := digits.foldl (fun value c => value * 10 + (c.toNat - '0'.toNat)) 0
  if digits.isEmpty || 0x100000000 ≤ value then none
  else some (value, rest.dropWhile CharSet.blank.contains)

def count? (flags : Flags) (chars : List Char) : Option ((Nat × Option Nat) × List Char) := do
  let (least, rest) ← decimal? flags (flags.skip chars)
  match rest with
  | '\x7d' :: rest => return ((least, some least), flags.skip rest)
  | ',' :: rest =>
      match flags.skip rest with
      | '\x7d' :: rest => return ((least, none), flags.skip rest)
      | rest =>
          match ← decimal? flags rest with
          | (most, '\x7d' :: rest) =>
              if least ≤ most then some ((least, some most), flags.skip rest) else none
          | _ => none
  | _ => none

/-! ### Groups -/

/-- A part of what is being read, with the height of what it was written as. A change of
flags is a part that matches the empty text and cannot be repeated. -/
structure Part where
  pattern : Pattern
  height : Nat := 0
  isFlags : Bool := false

/-- An open group: the flags outside it, its number if it has one, its branches before the
current one, and the parts of the current branch, both with the last one first. -/
structure OpenGroup where
  outside : Flags
  number : Option Nat := none
  branches : List Part := []
  parts : List Part := []

/-- The height of several things in one, of which a single one is by itself. -/
def heightOf (parts : List Part) : Nat :=
  let greatest := (parts.map Part.height).foldl max 0
  if parts.length ≤ 1 then greatest else greatest + 1

namespace OpenGroup

def add (g : OpenGroup) (part : Part) : OpenGroup := { g with parts := part :: g.parts }

def branch (g : OpenGroup) : Part :=
  { pattern := g.parts.foldl (fun following part => part.pattern.join following) .empty
    height := heightOf g.parts }

def nextBranch (g : OpenGroup) : OpenGroup :=
  { g with branches := g.branch :: g.branches, parts := [] }

def contents (g : OpenGroup) : Part :=
  if g.branches.isEmpty then g.branch
  else
    let branches := (g.branch :: g.branches).reverse
    { pattern := Pattern.choice (branches.map Part.pattern), height := heightOf branches }

def close (g : OpenGroup) : Part :=
  let contents := g.contents
  { pattern := (g.number.map fun n => .group n contents.pattern).getD contents.pattern
    height := contents.height + 1 }

def repeatLast? (g : OpenGroup) (least : Nat) (most : Option Nat) (isLazy : Bool) :
    Option OpenGroup :=
  match g.parts with
  | part :: others =>
      if part.isFlags || greatestHeight ≤ part.height then none
      else
        some { g with
          parts :=
            { pattern := part.pattern.times least most isLazy, height := part.height + 1 } ::
              others }
  | [] => none

end OpenGroup

def readFlags (flags : Flags) (seen : List Char) (on : Bool) :
    List Char → Option (Flags × List Char)
  | [] => none
  | c :: rest =>
      if c == ':' || c == ')' then
        if seen.head? == some '-' then none else some (flags, c :: rest)
      else if seen.contains c then none
      else if c == '-' then readFlags flags (c :: seen) false rest
      else (flags.set? c on).bind fun flags => readFlags flags (c :: seen) on rest

/-- Numbers that are no decimal digits, among the characters up to U+00FF. -/
def otherNumbers : CharSet := .ofRanges [(0xB2, 0xB3), (0xB9, 0xB9), (0xBC, 0xBE)]

def isNameChar (isFirst : Bool) (c : Char) : Bool :=
  let isNumber := CharSet.digit.contains c || otherNumbers.contains c
  c == '_' || (CharSet.word.contains c && !isNumber) ||
    (!isFirst && (isNumber || c == '.' || c == '[' || c == ']'))

def groupName? (chars : List Char) : Option (List Char × List Char) :=
  match chars.span (· != '>') with
  | (first :: name, '>' :: rest) =>
      if isNameChar true first && name.all (isNameChar false) then some (first :: name, rest)
      else none
  | _ => none

structure Groups where
  count : Nat := 0
  names : List (List Char) := []

inductive GroupStart where
  | flags (flags : Flags)
  /-- A group without a number, with the flags inside it. -/
  | plain (flags : Flags)
  /-- A group that has a number, and may have a name. -/
  | numbered (name : Option (List Char))

/-- What an opening bracket begins. Conditions on what surrounds a place are refused. -/
def groupStart (flags : Flags) (chars : List Char) : Option (GroupStart × List Char) :=
  match flags.skip chars with
  | '?' :: '=' :: _ | '?' :: '!' :: _ | '?' :: '<' :: '=' :: _ | '?' :: '<' :: '!' :: _ => none
  | '?' :: 'P' :: '<' :: rest | '?' :: '<' :: rest =>
      (groupName? rest).map fun (name, rest) => (.numbered (some name), rest)
  | '?' :: rest =>
      match readFlags flags [] true rest with
      | some (inside, ':' :: after) => some (.plain inside, after)
      | some (after, ')' :: following) =>
          if rest.head? == some ')' then none else some (.flags after, following)
      | _ => none
  | rest => some (.numbered none, rest)

def Groups.begin? (groups : Groups) (name : Option (List Char)) : Option Groups :=
  match name with
  | none => some { groups with count := groups.count + 1 }
  | some name =>
      if groups.names.contains name then none
      else some { count := groups.count + 1, names := name :: groups.names }

/-! ### Patterns -/

def finish? (whole : Part) : Option Pattern :=
  if whole.height ≤ greatestHeight && whole.pattern.isAffordable then some whole.pattern else none

def letter (flags : Flags) (c : Char) : Part :=
  { pattern := Pattern.oneOf (flags.withCase (.single c)) }

def dot? (flags : Flags) : Option Part :=
  let lineEnds : List Char :=
    if flags.dotAll then [] else if flags.withReturns then ['\n', '\r'] else ['\n']
  (flags.complement? (.ofChars lineEnds)).map fun set => { pattern := .one set }

def Flags.startAnchor (flags : Flags) : Anchor :=
  if flags.multiline then .lineStart flags.withReturns else .textStart

def Flags.endAnchor (flags : Flags) : Anchor :=
  if flags.multiline then .lineEnd flags.withReturns else .textEnd

/-- Reads the rest of a pattern, the innermost open group first. The first argument bounds
the characters that are left. -/
def readPattern :
    Nat → Flags → Groups → OpenGroup → List OpenGroup → List Char → Option Pattern
  | 0, _, _, _, _, _ => none
  | bound + 1, flags, groups, inner, outer, chars =>
      let part (part : Part) (rest : List Char) : Option Pattern :=
        readPattern bound flags groups (inner.add part) outer rest
      let again (least : Nat) (most : Option Nat) (rest : List Char) : Option Pattern := do
        let marked := rest.head? == some '?'
        let inner ← inner.repeatLast? least most (flags.isLazy != marked)
        readPattern bound flags groups inner outer (if marked then rest.drop 1 else rest)
      match flags.skip chars with
      | [] => if outer.isEmpty then finish? inner.contents else none
      | '(' :: rest => do
          match ← groupStart flags rest with
          | (.flags changed, rest) =>
              let change : Part := { pattern := .empty, isFlags := true }
              readPattern bound changed groups (inner.add change) outer rest
          | (.plain inside, rest) =>
              readPattern bound inside groups { outside := flags } (inner :: outer) rest
          | (.numbered name, rest) =>
              let groups ← groups.begin? name
              let begun : OpenGroup := { outside := flags, number := some groups.count }
              readPattern bound flags groups begun (inner :: outer) rest
      | ')' :: rest =>
          match outer with
          | [] => none
          | parent :: others =>
              let closed := inner.close
              if greatestHeight < closed.height then none
              else readPattern bound inner.outside groups (parent.add closed) others rest
      | '|' :: rest => readPattern bound flags groups inner.nextBranch outer rest
      | '?' :: rest => again 0 (some 1) rest
      | '*' :: rest => again 0 none rest
      | '+' :: rest => again 1 none rest
      | '\x7b' :: rest => do
          let ((least, most), rest) ← count? flags rest
          again least most rest
      | '[' :: rest => do
          let (set, rest) := OpenSet.begin flags rest
          let ((set, height), rest) ← readSet flags bound set [] rest
          part { pattern := .oneOf set, height } rest
      | '.' :: rest => do part (← dot? flags) rest
      | '^' :: rest => part { pattern := .anchor flags.startAnchor } rest
      | '$' :: rest => part { pattern := .anchor flags.endAnchor } rest
      | '\\' :: rest => do
          match ← escape flags rest with
          | (.literal c, rest) => part (letter flags c) rest
          | (.set set, rest) => part { pattern := .oneOf set } rest
          | (.anchor anchor, rest) => part { pattern := .anchor anchor } rest
      | c :: rest => part (letter flags c) rest

def pattern? (text : String) : Option Pattern :=
  let chars := text.toList
  readPattern (chars.length + 1) {} {} { outside := {} } [] chars

end ProfileTrace.NameFilter
