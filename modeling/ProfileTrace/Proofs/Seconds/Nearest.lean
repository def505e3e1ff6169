import Mathlib.Algebra.Order.Group.Nat
import Mathlib.Tactic.Ring
import ProfileTrace.Proofs.Seconds.Arithmetic
import ProfileTrace.Seconds.Decimal
import ProfileTrace.Seconds.Format

/-! Rounding of quotients to the nearest value. A quotient rounds to a value just by the interval
around it, whichever numbers it is written with, and decimal numbers are rounded as quotients also
where their exponents are out of range. -/

namespace ProfileTrace.Seconds

variable {n d m k : Nat}

/-! ### Quotients -/

theorem roundDiv_eq {q : Nat} (positive : 0 < d) (lower : 2 * (q * d) ≤ 2 * n + d)
    (upper : 2 * n ≤ 2 * (q * d) + d)
    (tie : 2 * (q * d) = 2 * n + d ∨ 2 * n = 2 * (q * d) + d → q % 2 = 0) : roundDiv n d = q := by
  have whole := Nat.div_add_mod n d
  have less := Nat.mod_lt n positive
  have above : q < n / d + 2 := by
    apply Nat.lt_of_mul_lt_mul_right (a := d)
    have two : (n / d + 2) * d = d * (n / d) + 2 * d := by ring
    omega
  have below : n / d ≤ q := by
    apply Nat.le_of_lt_succ
    apply Nat.lt_of_mul_lt_mul_right (a := d)
    have one : (q + 1) * d = q * d + d := by ring
    rw [Nat.mul_comm (n / d) d, one]
    omega
  unfold roundDiv
  rcases Nat.eq_or_lt_of_le below with same | next
  · rw [Nat.mul_comm d, same] at whole
    simp only [same]
    split
    · rfl
    · split <;> omega
  · obtain rfl : q = n / d + 1 := by omega
    have one : (n / d + 1) * d = d * (n / d) + d := by ring
    simp only
    split
    · omega
    · split <;> omega

theorem roundDiv_mul_right (positive : 0 < k) : roundDiv (n * k) (d * k) = roundDiv n d := by
  have twice : 2 * (n % d * k) = 2 * (n % d) * k := (Nat.mul_assoc _ _ _).symm
  simp only [roundDiv, Nat.mul_div_mul_right _ _ positive, Nat.mul_mod_mul_right, twice,
    Nat.mul_lt_mul_right positive]

theorem nearestMagnitude_mul_right (positive : 0 < k) :
    nearestMagnitude (n * k) (d * k) = nearestMagnitude n d := by
  simp only [nearestMagnitude, Nat.mul_div_mul_right _ _ positive, Nat.mul_right_comm d k,
    roundDiv_mul_right positive]

theorem nearestMagnitude_congr {n' d' : Nat} (first : 0 < d) (second : 0 < d')
    (same : n * d' = n' * d) : nearestMagnitude n d = nearestMagnitude n' d' := by
  rw [← nearestMagnitude_mul_right second, same, Nat.mul_comm d d',
    nearestMagnitude_mul_right first]

/-! ### The interval around a value -/

/-- The quotient is among the numbers that round to the magnitude, the ends of which round to the
even one of two neighbours. -/
def RoundsTo (n d magnitude : Nat) : Prop :=
  if magnitude % 2 = 0 then
    (roundingInterval magnitude).1 * d ≤ 4 * n ∧ 4 * n ≤ (roundingInterval magnitude).2.2 * d
  else (roundingInterval magnitude).1 * d < 4 * n ∧ 4 * n < (roundingInterval magnitude).2.2 * d

theorem log2_sub_eq {shift : Nat} (lower : shift = 0 ∨ perExponent * 2 ^ shift ≤ n)
    (upper : n < 2 * perExponent * 2 ^ shift) : n.log2 - 52 = shift := by
  have above : n < 2 ^ (53 + shift) := by rwa [Nat.pow_add]
  rcases lower with rfl | lower
  · have few : n.log2 ≤ 52 := by
      by_cases none : n = 0
      · subst none
        exact Nat.zero_le _
      · exact Nat.le_of_lt_succ ((Nat.log2_lt none).mpr above)
    omega
  · have below : 2 ^ (52 + shift) ≤ n := by rwa [Nat.pow_add]
    have some : n ≠ 0 := by
      have positive := Nat.two_pow_pos (52 + shift)
      omega
    have least := (Nat.le_log2 some).mpr below
    have most := (Nat.log2_lt some).mpr above
    omega

/-- Rounding a quotient whose place among the powers of two is known. -/
theorem nearestMagnitude_eq {shift q : Nat} (positive : 0 < d)
    (lower : shift = 0 ∨ perExponent * 2 ^ shift * d ≤ n)
    (upper : n < 2 * perExponent * 2 ^ shift * d)
    (rounds : roundDiv n (d * 2 ^ shift) = q) :
    nearestMagnitude n d = min (shift * perExponent + q) infiniteMagnitude := by
  have place : (n / d).log2 - 52 = shift :=
    log2_sub_eq (lower.imp_right (Nat.le_div_iff_mul_le positive).mpr)
      ((Nat.div_lt_iff_lt_mul positive).mpr upper)
  simp only [nearestMagnitude, place]
  rw [← rounds]
  rfl

theorem roundingInterval_of_lt (small : m < 2 * perExponent) :
    roundingInterval m = (4 * m - 2, 4 * m, 4 * m + 2) := by
  have quotient : m / perExponent < 2 := Nat.div_lt_of_lt_mul (by omega)
  have gap : spacing m = 1 := by
    rw [spacing, show m / perExponent - 1 = 0 by omega]
  have units : magnitudeUnits m = m := by
    rw [magnitudeUnits, gap, Nat.mul_one]
    split
    · rfl
    next large =>
      have one := Nat.div_add_mod m perExponent
      rw [show m / perExponent = 1 by
        have some := Nat.div_pos (Nat.le_of_not_lt large) (show 0 < perExponent by decide)
        omega] at one
      omega
  have inside : ¬(m % perExponent = 0 ∧ 2 * perExponent ≤ m) := by omega
  simp only [roundingInterval, gap, units, if_neg inside]

theorem roundingInterval_of_exponent {exponent fraction : Nat} (high : 2 ≤ exponent)
    (less : fraction < perExponent) :
    roundingInterval (exponent * perExponent + fraction) =
      (4 * ((perExponent + fraction) * 2 ^ (exponent - 1)) -
          (if fraction = 0 then 2 ^ (exponent - 1) else 2 * 2 ^ (exponent - 1)),
        4 * ((perExponent + fraction) * 2 ^ (exponent - 1)),
        4 * ((perExponent + fraction) * 2 ^ (exponent - 1)) + 2 * 2 ^ (exponent - 1)) := by
  have large : 2 * perExponent ≤ exponent * perExponent + fraction :=
    Nat.le_trans (Nat.mul_le_mul_right _ high) (Nat.le_add_right _ _)
  have quotient : (exponent * perExponent + fraction) / perExponent = exponent := by
    rw [Nat.mul_comm, Nat.mul_add_div (by decide), Nat.div_eq_of_lt less, Nat.add_zero]
  have rest : (exponent * perExponent + fraction) % perExponent = fraction := by
    rw [Nat.mul_comm, Nat.mul_add_mod, Nat.mod_eq_of_lt less]
  have normal : ¬exponent * perExponent + fraction < perExponent := by omega
  simp only [roundingInterval, magnitudeUnits, spacing, quotient, rest, if_neg normal, large,
    and_true]
  rfl

theorem nearestMagnitude_of_lt (positive : 0 < d) (small : m < 2 * perExponent)
    (rounds : RoundsTo n d m) : nearestMagnitude n d = m := by
  have bound : m ≤ infiniteMagnitude := by
    have far : 2 * perExponent ≤ infiniteMagnitude := by decide
    omega
  obtain ⟨lower, upper, strict⟩ : (4 * m - 2) * d ≤ 4 * n ∧ 4 * n ≤ (4 * m + 2) * d ∧
      (m % 2 ≠ 0 → (4 * m - 2) * d < 4 * n ∧ 4 * n < (4 * m + 2) * d) := by
    rw [RoundsTo, roundingInterval_of_lt small] at rounds
    split at rounds
    next even => exact ⟨rounds.1, rounds.2, fun odd => absurd even odd⟩
    next => exact ⟨Nat.le_of_lt rounds.1, Nat.le_of_lt rounds.2, fun _ => rounds⟩
  rw [Nat.sub_mul] at lower strict
  rw [Nat.add_mul] at upper strict
  have four : 4 * m * d = 4 * (m * d) := Nat.mul_assoc 4 m d
  have next : (m + 1) * d ≤ 2 * perExponent * d := Nat.mul_le_mul_right d small
  rw [Nat.add_mul, Nat.one_mul] at next
  have nearest : roundDiv n d = m := by
    apply roundDiv_eq positive (by omega) (by omega)
    intro tie
    by_contra odd
    have inside := strict odd
    omega
  have least : n < 2 * perExponent * 2 ^ 0 * d := by
    rw [Nat.pow_zero, Nat.mul_one]
    omega
  have whole : roundDiv n (d * 2 ^ 0) = m := by rwa [Nat.pow_zero, Nat.mul_one]
  rw [nearestMagnitude_eq positive (.inl rfl) least whole, Nat.zero_mul, Nat.zero_add,
    Nat.min_eq_left bound]

theorem mul_perExponent_add_mod_two (exponent fraction : Nat) :
    (exponent * perExponent + fraction) % 2 = fraction % 2 := by
  have even : perExponent = 2 * (perExponent / 2) := by decide
  rw [even, Nat.mul_left_comm, Nat.mul_add_mod]

theorem RoundsTo.bounds {exponent fraction value gap : Nat} (less : fraction < perExponent)
    (spaced : 2 ^ (exponent + 1) * d = gap) (valued : (perExponent + fraction) * gap = value)
    (rounds : RoundsTo n d ((exponent + 2) * perExponent + fraction)) :
    2 * value ≤ 2 * n + gap ∧ 2 * n ≤ 2 * value + gap ∧
      (fraction % 2 = 1 → 2 * value < 2 * n + gap ∧ 2 * n < 2 * value + gap) ∧
      (fraction = 0 → 4 * value ≤ 4 * n + gap) := by
  have whole : (perExponent + fraction) * 2 ^ (exponent + 1) * d = value := by
    rw [Nat.mul_assoc, spaced, valued]
  have low : (4 * ((perExponent + fraction) * 2 ^ (exponent + 1)) -
      (if fraction = 0 then 2 ^ (exponent + 1) else 2 * 2 ^ (exponent + 1))) * d =
        4 * value - (if fraction = 0 then gap else 2 * gap) := by
    rw [Nat.sub_mul, Nat.mul_assoc 4, whole]
    split
    · rw [spaced]
    · rw [Nat.mul_assoc 2, spaced]
  have high : (4 * ((perExponent + fraction) * 2 ^ (exponent + 1)) + 2 * 2 ^ (exponent + 1)) * d =
      4 * value + 2 * gap := by
    rw [Nat.add_mul, Nat.mul_assoc 4, whole, Nat.mul_assoc 2, spaced]
  rw [RoundsTo, roundingInterval_of_exponent (by omega) less,
    mul_perExponent_add_mod_two] at rounds
  simp only [Nat.add_succ_sub_one] at rounds
  rw [low, high] at rounds
  clear low high whole valued spaced
  split at rounds <;> split at rounds <;> omega

theorem nearestMagnitude_of_exponent {exponent fraction : Nat} (positive : 0 < d)
    (less : fraction < perExponent)
    (finite : (exponent + 2) * perExponent + fraction < infiniteMagnitude)
    (rounds : RoundsTo n d ((exponent + 2) * perExponent + fraction)) :
    nearestMagnitude n d = (exponent + 2) * perExponent + fraction := by
  obtain ⟨half, halved⟩ : ∃ half, d * 2 ^ exponent = half := ⟨_, rfl⟩
  have some : 0 < half := halved ▸ Nat.mul_pos positive (Nat.two_pow_pos exponent)
  have spaced : d * 2 ^ (exponent + 1) = 2 * half := by
    rw [← halved]
    ring
  obtain ⟨lower, upper, strict, first⟩ := RoundsTo.bounds less
    ((Nat.mul_comm _ _).trans spaced) rfl rounds
  have next : fraction * half + half ≤ perExponent * half := by
    have next := Nat.mul_le_mul_right half less
    rwa [Nat.succ_mul] at next
  have value : (perExponent + fraction) * (2 * half) =
      2 * (perExponent * half) + 2 * (fraction * half) := by ring
  rw [value] at lower upper strict first
  have power : perExponent * 2 ^ (exponent + 1) * d = 2 * (perExponent * half) := by
    rw [Nat.mul_assoc, Nat.mul_comm _ d, spaced]
    ring
  have atMost := Nat.min_eq_left (Nat.le_of_lt finite)
  by_cases above : 2 * (perExponent * half) ≤ n
  · -- the quotient has the exponent of the value
    have nearest : roundDiv n (d * 2 ^ (exponent + 1)) = perExponent + fraction := by
      have parity := mul_perExponent_add_mod_two 1 fraction
      rw [Nat.one_mul] at parity
      rw [spaced]
      apply roundDiv_eq (by omega) (by rw [value]; omega) (by rw [value]; omega)
      rw [value, parity]
      intro tie
      by_contra odd
      have inside := strict (Nat.mod_two_ne_zero.mp odd)
      clear * - tie inside
      omega
    have least : n < 2 * perExponent * 2 ^ (exponent + 1) * d := by
      rw [Nat.mul_assoc 2, Nat.mul_assoc 2, power]
      omega
    have sum : (exponent + 1) * perExponent + (perExponent + fraction) =
        (exponent + 2) * perExponent + fraction := by ring
    rw [nearestMagnitude_eq positive (.inr (by rwa [power])) least nearest, sum, atMost]
  · -- the quotient is below the power of two that the value is
    have none : fraction = 0 := by
      by_contra some
      have one := Nat.mul_le_mul_right half (Nat.pos_of_ne_zero some)
      omega
    have close := first none
    rw [none, Nat.zero_mul] at close upper
    have nearest : roundDiv n (d * 2 ^ exponent) = 2 * perExponent := by
      have double : 2 * perExponent * half = 2 * (perExponent * half) := Nat.mul_assoc _ _ _
      rw [halved]
      apply roundDiv_eq some (by rw [double]; omega) (by rw [double]; omega)
      exact fun _ => Nat.mul_mod_right 2 perExponent
    have below : perExponent * 2 ^ exponent * d ≤ n := by
      have one : 1 ≤ perExponent := by decide
      have larger := Nat.mul_le_mul_right half one
      rw [Nat.mul_assoc, Nat.mul_comm _ d, halved]
      omega
    have least : n < 2 * perExponent * 2 ^ exponent * d := by
      rw [Nat.mul_assoc, Nat.mul_comm _ d, halved, Nat.mul_assoc]
      omega
    have sum : exponent * perExponent + 2 * perExponent =
        (exponent + 2) * perExponent + fraction := by
      rw [none]
      ring
    rw [nearestMagnitude_eq positive (.inr below) least nearest, sum, atMost]

theorem nearestMagnitude_of_roundsTo (positive : 0 < d) (finite : m < infiniteMagnitude)
    (rounds : RoundsTo n d m) : nearestMagnitude n d = m := by
  by_cases small : m < 2 * perExponent
  · exact nearestMagnitude_of_lt positive small rounds
  · have parts := Nat.div_add_mod' m perExponent
    have high : 2 ≤ m / perExponent :=
      (Nat.le_div_iff_mul_le (by decide)).mpr (Nat.le_of_not_lt small)
    rw [← Nat.sub_add_cancel high] at parts
    rw [← parts] at finite rounds ⊢
    exact nearestMagnitude_of_exponent positive (Nat.mod_lt m (by decide)) finite rounds

/-! ### Decimal numbers -/

/-- A power of one base that is at most one of another bounds all the others. -/
theorem pow_le_pow_of_base {a b p q : Nat} (base : a ^ p ≤ b ^ q) (some : p ≠ 0) (positive : 0 < b)
    (most : q * m ≤ p * n) : a ^ m ≤ b ^ n := by
  apply (Nat.pow_le_pow_iff_left some).mp
  calc
    (a ^ m) ^ p = (a ^ p) ^ m := Nat.pow_right_comm ..
    _ ≤ (b ^ q) ^ m := Nat.pow_le_pow_left base m
    _ = b ^ (q * m) := (Nat.pow_mul ..).symm
    _ ≤ b ^ (p * n) := Nat.pow_le_pow_right positive most
    _ = (b ^ n) ^ p := by rw [Nat.mul_comm, Nat.pow_mul]

theorem two_pow_le_ten_pow (most : 30103 * m ≤ 100000 * n) : 2 ^ m ≤ 10 ^ n := by
  have base : 2 ^ 100000 ≤ 10 ^ 30103 := by decide +kernel
  exact pow_le_pow_of_base base (by decide) (by decide) most

theorem nearestMagnitude_of_large (large : 2 ^ 2099 ≤ n / d) :
    nearestMagnitude n d = infiniteMagnitude := by
  have some : n / d ≠ 0 := by
    have positive := Nat.two_pow_pos 2099
    omega
  have place : 0x7FF ≤ (n / d).log2 - 52 := by
    have most := (Nat.le_log2 some).mpr large
    omega
  have far : infiniteMagnitude ≤ ((n / d).log2 - 52) * perExponent :=
    Nat.mul_le_mul_right perExponent place
  exact Nat.min_eq_right (Nat.le_trans far (Nat.le_add_right _ _))

theorem nearestMagnitude_of_small (small : 2 * n ≤ d) (positive : 0 < d) :
    nearestMagnitude n d = 0 := by
  apply nearestMagnitude_of_lt positive (by decide)
  rw [RoundsTo, if_pos (Nat.zero_mod 2), roundingInterval_of_lt (by decide)]
  simp only
  omega

theorem units_of_many_tens {digits tens : Nat} (some : digits ≠ 0) (above : 310 < tens) :
    2 ^ 2099 ≤ digits * 10 ^ tens * 2 ^ unitExponent := by
  calc
    2 ^ 2099 = 2 ^ 1025 * 2 ^ unitExponent := by rw [unitExponent, ← Nat.pow_add]
    _ ≤ 10 ^ tens * 2 ^ unitExponent := Nat.mul_le_mul_right _ (two_pow_le_ten_pow (by omega))
    _ ≤ digits * 10 ^ tens * 2 ^ unitExponent :=
      Nat.mul_le_mul_right _ (Nat.le_mul_of_pos_left _ (Nat.pos_of_ne_zero some))

theorem units_of_few_tenths {digits tens : Nat} (below : 340 + digits.log2 < tens) :
    2 * (digits * 2 ^ unitExponent) ≤ 10 ^ tens := by
  calc
    2 * (digits * 2 ^ unitExponent) ≤ 2 * (2 ^ (digits.log2 + 1) * 2 ^ unitExponent) := by
      gcongr
      exact Nat.le_of_lt Nat.lt_log2_self
    _ = 2 ^ (unitExponent + 2 + digits.log2) := by ring
    _ ≤ 10 ^ tens := by
      apply two_pow_le_ten_pow
      unfold unitExponent
      omega

/-- Exponents out of range give what rounding the number gives. -/
theorem ofDecimal_eq (negative : Bool) (digits : Nat) (exponent : Int) :
    ofDecimal negative digits exponent =
      ofMagnitude negative (nearestMagnitude (digits * 10 ^ exponent.toNat * 2 ^ unitExponent)
        (10 ^ (-exponent).toNat)) := by
  have positive : 0 < 10 ^ (-exponent).toNat := Nat.pow_pos (by decide)
  unfold ofDecimal
  split
  next none => rw [none, Nat.zero_mul, Nat.zero_mul, nearestMagnitude_of_small (by omega) positive]
  next some =>
    split
    next above =>
      have large := @units_of_many_tens digits exponent.toNat some (by omega)
      rw [show (-exponent).toNat = 0 by omega, Nat.pow_zero,
        nearestMagnitude_of_large (by rwa [Nat.div_one]), infinite]
    next =>
      split
      next below =>
        have small := @units_of_few_tenths digits (-exponent).toNat (by omega)
        rw [show exponent.toNat = 0 by omega, Nat.pow_zero, Nat.mul_one,
          nearestMagnitude_of_small small positive]
      next =>
        split
        next whole =>
          rw [show (-exponent).toNat = 0 by omega, Nat.pow_zero, Nat.pow_eq, Nat.pow_eq]
        next =>
          rw [show exponent.toNat = 0 by omega, show (-exponent).toNat = exponent.natAbs by omega,
            Nat.pow_zero, Nat.mul_one, Nat.pow_eq, Nat.pow_eq]

theorem ofDecimal_mul_pow (negative : Bool) (digits zeros : Nat) (exponent : Int) :
    ofDecimal negative (digits * 10 ^ zeros) (exponent - zeros) =
      ofDecimal negative digits exponent := by
  obtain ⟨unit, same⟩ : ∃ unit, 2 ^ unitExponent = unit := ⟨_, rfl⟩
  rw [ofDecimal_eq, ofDecimal_eq, same]
  apply congrArg (ofMagnitude negative)
  apply nearestMagnitude_congr (Nat.pow_pos (by decide)) (Nat.pow_pos (by decide))
  have places : zeros + (exponent - zeros).toNat + (-exponent).toNat =
      exponent.toNat + (-(exponent - zeros)).toNat := by omega
  calc
    digits * 10 ^ zeros * 10 ^ (exponent - zeros).toNat * unit * 10 ^ (-exponent).toNat =
        digits * unit * 10 ^ (zeros + (exponent - zeros).toNat + (-exponent).toNat) := by ring
    _ = digits * 10 ^ exponent.toNat * unit * 10 ^ (-(exponent - zeros)).toNat := by
      rw [places]
      ring

theorem ofDecimal_of_roundsTo {digits : Nat} {exponent : Int} (negative : Bool)
    (finite : m < infiniteMagnitude)
    (rounds : RoundsTo (digits * 10 ^ exponent.toNat * 2 ^ unitExponent)
      (10 ^ (-exponent).toNat) m) :
    ofDecimal negative digits exponent = ofMagnitude negative m := by
  rw [ofDecimal_eq, nearestMagnitude_of_roundsTo (Nat.pow_pos (by decide)) finite rounds]

end ProfileTrace.Seconds
