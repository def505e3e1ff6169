import ProfileTrace.NameFilter.Flags
import ProfileTrace.NameFilter.Pattern
import ProfileTrace.Text.Blank

/-! What a backslash in a pattern means. -/

namespace ProfileTrace.NameFilter
open CharSet

inductive Escape where
  | literal (c : Char)
  | set (set : CharSet)
  | anchor (anchor : Anchor)

def isHexDigit (c : Char) : Bool :=
  ('0' ≤ c && c ≤ '9') || ('a' ≤ c && c ≤ 'f') || ('A' ≤ c && c ≤ 'F')

def hexValue (digits : List Char) : Nat :=
  digits.foldl
    (fun value c => value * 16 + ((Text.digitValue? 16 (UInt8.ofNat c.toNat)).getD 0)) 0

def scalar? (n : Nat) : Option Char :=
  if n < 0xD800 || (0xDFFF < n && n < 0x110000) then some (Char.ofNat n) else none

def hexDigits? (flags : Flags) : Nat → List Char → Option (List Char × List Char)
  | 0, chars => some ([], chars)
  | _ + 1, [] => none
  | count + 1, c :: rest => do
      guard (isHexDigit c)
      let (digits, rest) ← hexDigits? flags count (flags.skip rest)
      return (c :: digits, rest)

/-- A character by its number: so many hexadecimal digits, or any in braces. Two digits are
a byte where only ASCII is meant. -/
def hexEscape (flags : Flags) (width : Nat) (chars : List Char) : Option (Escape × List Char) :=
  match flags.skip chars with
  | '\x7b' :: rest =>
      match flags.takeWhile isHexDigit (flags.skip rest) with
      | (digits, '\x7d' :: rest) => do
          guard (!digits.isEmpty)
          return (.literal (← scalar? (hexValue digits)), rest)
      | _ => none
  | chars => do
      let (digits, rest) ← hexDigits? flags width chars
      let c ← scalar? (hexValue digits)
      guard (!(flags.ascii && width == 2 && 0x7F < c.toNat))
      return (.literal c, rest)

def edgeNames : List (String × WordEdge) :=
  [("start", .start), ("end", .finish), ("start-half", .startHalf), ("end-half", .finishHalf)]

/-- A word boundary, which may be narrowed by a name in braces; braces that begin with
anything else than a letter or a hyphen belong to a count. -/
def boundaryEscape (flags : Flags) (chars : List Char) : Option (Escape × List Char) :=
  let isNameChar (c : Char) : Bool := c.isAlpha || c == '-'
  let plain : Option (Escape × List Char) := some (.anchor (.word .either flags.ascii), chars)
  match chars with
  | '\x7b' :: rest =>
      match flags.takeWhile isNameChar (flags.skip rest) with
      | ([], []) => none
      | ([], _) => plain
      | (name, '\x7d' :: rest) =>
          (edgeNames.lookup (String.ofList name)).map fun edge =>
            (.anchor (.word edge flags.ascii), rest)
      | _ => none
  | _ => plain

/-- A class by its letter, if it is one; a capital stands for what the small letter does
not. -/
def classOf? (flags : Flags) (letter : Char) : Option CharSet :=
  let choose (ascii wide : CharSet) : CharSet := if flags.ascii then ascii else wide
  match letter with
  | 'd' => some (choose asciiDigit digit)
  | 's' => some (choose asciiBlank blank)
  | 'w' => some (choose asciiWord word)
  | 'D' => flags.complement? digit
  | 'S' => flags.complement? blank
  | 'W' => flags.complement? word
  | _ => none

def controls : List (Char × Char) :=
  [('a', '\x07'), ('f', '\x0C'), ('t', '\t'), ('n', '\n'), ('r', '\r'), ('v', '\x0B')]

def escape (flags : Flags) : List Char → Option (Escape × List Char)
  | [] => none
  | c :: rest =>
      let anchor (anchor : Anchor) : Option (Escape × List Char) := some (.anchor anchor, rest)
      match c with
      | 'x' => hexEscape flags 2 rest
      | 'u' => hexEscape flags 4 rest
      | 'U' => hexEscape flags 8 rest
      | 'A' => anchor .textStart
      | 'z' => anchor .textEnd
      | 'b' => boundaryEscape flags rest
      | 'B' => anchor (.word .neither flags.ascii)
      | '<' => anchor (.word .start flags.ascii)
      | '>' => anchor (.word .finish flags.ascii)
      | c =>
          match controls.lookup c, classOf? flags c with
          | some control, _ => some (.literal control, rest)
          | none, some set => some (.set set, rest)
          | none, none =>
              if c.toNat < 0x80 && !c.isAlphanum then some (.literal c, rest) else none

end ProfileTrace.NameFilter
