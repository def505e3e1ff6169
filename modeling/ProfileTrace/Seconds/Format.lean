import ProfileTrace.Seconds.Basic

/-! Texts of times: the fewest digits that read back as the same value, and a fixed
number of decimal places. -/

namespace ProfileTrace.Seconds

structure Digits where
  digits : Nat
  exponent : Int
  deriving DecidableEq, Repr

/-- Four times the value, and four times the ends of the interval of numbers that round
to it, in units. Below a power of two the spacing is half of that above. -/
def roundingInterval (magnitude : Nat) : Nat × Nat × Nat :=
  let gap := spacing magnitude
  let value := 4 * magnitudeUnits magnitude
  let below := if magnitude % perExponent = 0 ∧ 2 * perExponent ≤ magnitude then gap else 2 * gap
  (value - below, value, value + 2 * gap)

def powerLe (exponent : Int) (units : Nat) : Bool :=
  if 0 ≤ exponent then Nat.pow 10 exponent.toNat * Nat.pow 2 unitExponent ≤ units
  else Nat.pow 2 unitExponent ≤ units * Nat.pow 10 exponent.natAbs

/-- The place of the first decimal digit of a number of units: an estimate from its bits,
put right by at most one. -/
def leadingPlace (units : Nat) : Int :=
  let estimate := ((units.log2 : Int) - unitExponent) * 30103 / 100000
  if powerLe (estimate + 1) units then estimate + 1
  else if powerLe estimate units then estimate
  else estimate - 1

/-- The point of the decimal grid at `place` that reads back as the value, if one does:
the nearer of the value's two neighbours, the even one of a tie. -/
def gridPoint? (magnitude : Nat) (place : Int) : Option Nat :=
  let (low, value, high) := roundingInterval magnitude
  let up := Nat.pow 10 (-place).toNat
  let one := 4 * Nat.pow 2 unitExponent * Nat.pow 10 place.toNat
  let inside (point : Nat) : Bool :=
    if magnitude % 2 = 0 then low * up ≤ point * one && point * one ≤ high * up
    else low * up < point * one && point * one < high * up
  let below := value * up / one
  let nearest := roundDiv (value * up) one
  let other := if nearest = below then below + 1 else below
  if inside nearest then some nearest else if inside other then some other else none

private def search (magnitude : Nat) (place : Int) : Nat → Digits
  | 0 => ⟨0, 0⟩
  | more + 1 =>
      match gridPoint? magnitude place with
      | some point => ⟨point, place⟩
      | none => search magnitude (place - 1) more

private theorem exists_search {magnitude more tries : Nat} {place : Int} (less : tries < more)
    (inside : (gridPoint? magnitude (place - tries)).isSome) : ∃ point found,
      gridPoint? magnitude found = some point ∧ search magnitude place more = ⟨point, found⟩ := by
  induction more generalizing place tries with
  | zero => omega
  | succ more ih =>
    rw [search]
    split
    next point first => exact ⟨point, place, first, rfl⟩
    next none =>
      cases tries with
      | zero =>
        rw [Int.natCast_zero, Int.sub_zero, none] at inside
        cases inside
      | succ tries =>
        have later : place - 1 - tries = place - (tries + 1 : Nat) := by omega
        exact ih (Nat.lt_of_succ_lt_succ less) (by rwa [later])

def withoutZeros (digits : Nat) (exponent : Int) : Digits :=
  if _ending : 0 < digits ∧ digits % 10 = 0 then withoutZeros (digits / 10) (exponent + 1)
  else ⟨digits, exponent⟩
termination_by digits

/-- The fewest digits that read back as the magnitude, on the first decimal grid that has
a point among the numbers rounding to it. Seventeen digits always suffice. -/
def shortest (magnitude : Nat) : Digits :=
  let found := search magnitude (leadingPlace (magnitudeUnits magnitude)) 18
  withoutZeros found.digits found.exponent

theorem exists_shortest {magnitude tries : Nat} (less : tries < 18) (inside :
    (gridPoint? magnitude (leadingPlace (magnitudeUnits magnitude) - tries)).isSome) :
    ∃ point place, gridPoint? magnitude place = some point ∧
      shortest magnitude = withoutZeros point place := by
  obtain ⟨point, place, found, same⟩ := exists_search less inside
  exact ⟨point, place, found, by rw [shortest, same]⟩

def digitChars (n : Nat) : List Char := Nat.toDigits 10 n

def signChars (negative : Bool) : List Char := if negative then ['-'] else []

/-- Digits with the point after the first `whole`, filled up with zeros, and at least one
digit on either side of it. -/
def positional (digits : List Char) (whole : Int) : List Char :=
  if whole ≤ 0 then
    ['0', '.'] ++ List.replicate whole.natAbs '0' ++ digits
  else
    let padded := digits ++ List.replicate (whole.toNat + 1 - digits.length) '0'
    padded.take whole.toNat ++ '.' :: padded.drop whole.toNat

def scientific (digits : List Char) (exponent : Int) : List Char :=
  digits.take 1 ++ (if digits.length ≤ 1 then [] else '.' :: digits.drop 1) ++
    'e' :: (if exponent < 0 then '-' else '+') :: digitChars exponent.natAbs

/-- The shortest text of a finite value: positional from ten to the power of minus five up
to ten to the power of sixteen, and scientific elsewhere. -/
def shortestChars (s : Seconds) : List Char :=
  signChars s.isNegative ++
    if s.magnitude = 0 then ['0', '.', '0']
    else
      let found := shortest s.magnitude
      let digits := digitChars found.digits
      let exponent := found.exponent + digits.length - 1
      if -5 ≤ exponent ∧ exponent < 16 then positional digits (exponent + 1)
      else scientific digits exponent

/-- The exact value to so many decimal places, a tie going to the even digit. -/
def fixedChars (places : Nat) (s : Seconds) : List Char :=
  if s.isUndefined then "NaN".toList
  else
    signChars s.isNegative ++
      if s.isInfinite then "inf".toList
      else
        let scaled := roundDiv (magnitudeUnits s.magnitude * Nat.pow 10 places)
          (Nat.pow 2 unitExponent)
        let digits := digitChars scaled
        let padded := List.replicate (places + 1 - digits.length) '0' ++ digits
        let whole := padded.length - places
        padded.take whole ++ '.' :: padded.drop whole

end ProfileTrace.Seconds
