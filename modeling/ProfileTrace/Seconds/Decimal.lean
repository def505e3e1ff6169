import ProfileTrace.Seconds.Basic

/-! Seconds from text: a sign, then either a name for an infinite or undefined value or
a decimal number with an optional point and exponent, rounded to the nearest value. -/

namespace ProfileTrace.Seconds

/-- The value nearest to `digits` times ten to the power of `exponent`. Exponents far out
of range decide the value before any power is taken. -/
def ofDecimal (negative : Bool) (digits : Nat) (exponent : Int) : Seconds :=
  if digits = 0 then ofMagnitude negative 0
  else if 310 < exponent then infinite negative
  else if exponent < -(340 + digits.log2 : Int) then ofMagnitude negative 0
  else if 0 ≤ exponent then
    ofMagnitude negative
      (nearestMagnitude (digits * Nat.pow 10 exponent.toNat * Nat.pow 2 unitExponent) 1)
  else
    ofMagnitude negative
      (nearestMagnitude (digits * Nat.pow 2 unitExponent) (Nat.pow 10 exponent.natAbs))

def isDigit (c : Char) : Bool := '0' ≤ c && c ≤ '9'

def digitsValue (digits : List Char) : Nat :=
  digits.foldl (fun value c => value * 10 + (c.toNat - '0'.toNat)) 0

def digits? (chars : List Char) : Option Nat :=
  if chars.isEmpty || !chars.all isDigit then none else some (digitsValue chars)

def splitSign : List Char → Bool × List Char
  | '-' :: rest => (true, rest)
  | '+' :: rest => (false, rest)
  | chars => (false, chars)

def exponent? : List Char → Option Int
  | [] => some 0
  | mark :: rest =>
      if mark == 'e' || mark == 'E' then
        let (negative, chars) := splitSign rest
        (digits? chars).map fun n => if negative then -(n : Int) else n
      else none

/-- Digits with an optional point among them, and an optional exponent. -/
def unsignedDecimal? (chars : List Char) : Option (Nat × Int) :=
  let (whole, rest) := chars.span isDigit
  let (fraction, rest) :=
    match rest with
    | '.' :: tail => tail.span isDigit
    | _ => ([], rest)
  if whole.isEmpty && fraction.isEmpty then none
  else (exponent? rest).map fun e => (digitsValue (whole ++ fraction), e - fraction.length)

def lowerAscii (c : Char) : Char :=
  if 'A' ≤ c && c ≤ 'Z' then Char.ofNat (c.toNat + 32) else c

def ofChars? (chars : List Char) : Option Seconds :=
  let (negative, rest) := splitSign chars
  let word := rest.map lowerAscii
  if word == "inf".toList || word == "infinity".toList then some (infinite negative)
  else if word == "nan".toList then some (undefinedValue negative)
  else (unsignedDecimal? rest).map fun (digits, exponent) => ofDecimal negative digits exponent

def ofText? (text : String) : Option Seconds := ofChars? text.toList

end ProfileTrace.Seconds
