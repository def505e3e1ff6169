import ProfileTrace.Proofs.Seconds.Arithmetic

/-! Rounded sums and differences keep the order of their operands. Rounding to nearest is monotone
within one exponent, and across exponents through the power of two that lies between. -/

namespace ProfileTrace.Seconds

variable {a b c : Seconds} {m n d : Nat}

/-! ### Rounding -/

theorem le_roundDiv (n d : Nat) : n / d ≤ roundDiv n d := by
  unfold roundDiv
  simp only
  split
  · exact Nat.le_refl _
  · split
    · exact Nat.le_succ _
    · exact Nat.le_add_right _ _

theorem roundDiv_le (n d : Nat) : roundDiv n d ≤ n / d + 1 := by
  unfold roundDiv
  simp only
  split
  · exact Nat.le_succ _
  · split
    · exact Nat.le_refl _
    · have parity := Nat.mod_lt (n / d) (show 0 < 2 by decide)
      omega

theorem roundDiv_mono (le : m ≤ n) : roundDiv m d ≤ roundDiv n d := by
  have quotients := Nat.div_le_div_right (c := d) le
  rcases Nat.lt_or_eq_of_le quotients with less | same
  · calc
      roundDiv m d ≤ m / d + 1 := roundDiv_le m d
      _ ≤ n / d := less
      _ ≤ roundDiv n d := le_roundDiv n d
  · -- of two numbers with one quotient the larger has the larger remainder
    have lower := Nat.div_add_mod m d
    have upper := Nat.div_add_mod n d
    rw [same] at lower
    have remainders : m % d ≤ n % d := by omega
    unfold roundDiv
    simp only [same]
    split <;> split <;> (try split) <;> (try split) <;> omega

def shiftOf (n : Nat) : Nat := n.log2 - 52

theorem nearestMagnitude_one (n : Nat) : nearestMagnitude n 1 =
    min (shiftOf n * perExponent + roundDiv n (Nat.pow 2 (shiftOf n))) infiniteMagnitude := by
  rw [nearestMagnitude, Nat.div_one, Nat.one_mul, shiftOf]

theorem shiftOf_mono (le : m ≤ n) : shiftOf m ≤ shiftOf n := by
  apply Nat.sub_le_sub_right
  by_cases none : m = 0
  · subst none
    exact Nat.zero_le _
  · have some : n ≠ 0 := by omega
    exact (Nat.le_log2 some).mpr (Nat.le_trans ((Nat.le_log2 none).mp (Nat.le_refl _)) le)

theorem lt_of_shiftOf (n : Nat) : n < Nat.pow 2 (shiftOf n) * (2 * perExponent) := by
  have bound : n < 2 ^ (shiftOf n + 53) := by
    by_cases none : n = 0
    · subst none
      exact Nat.two_pow_pos _
    · apply (Nat.log2_lt none).mp
      unfold shiftOf
      omega
  rwa [Nat.pow_add] at bound

theorem le_of_shiftOf (shifted : 0 < shiftOf n) : Nat.pow 2 (shiftOf n) * perExponent ≤ n := by
  have some : n ≠ 0 := by
    rintro rfl
    exact absurd shifted (by decide)
  have bound : 2 ^ (shiftOf n + 52) ≤ n := by
    apply (Nat.le_log2 some).mp
    unfold shiftOf at shifted ⊢
    omega
  rwa [Nat.pow_add] at bound

theorem roundDiv_shiftOf_le (n : Nat) : roundDiv n (Nat.pow 2 (shiftOf n)) ≤ 2 * perExponent := by
  have quotient : n / Nat.pow 2 (shiftOf n) < 2 * perExponent :=
    Nat.div_lt_of_lt_mul (lt_of_shiftOf n)
  exact Nat.le_trans (roundDiv_le _ _) quotient

theorem le_roundDiv_shiftOf (shifted : 0 < shiftOf n) :
    perExponent ≤ roundDiv n (Nat.pow 2 (shiftOf n)) := by
  have quotient : perExponent ≤ n / Nat.pow 2 (shiftOf n) := by
    apply (Nat.le_div_iff_mul_le (Nat.two_pow_pos (shiftOf n))).mpr
    rw [Nat.mul_comm]
    exact le_of_shiftOf shifted
  exact Nat.le_trans quotient (le_roundDiv _ _)

theorem nearestMagnitude_mono (le : m ≤ n) : nearestMagnitude m 1 ≤ nearestMagnitude n 1 := by
  rw [nearestMagnitude_one, nearestMagnitude_one]
  have shifts := shiftOf_mono le
  have unbounded : shiftOf m * perExponent + roundDiv m (Nat.pow 2 (shiftOf m)) ≤
      shiftOf n * perExponent + roundDiv n (Nat.pow 2 (shiftOf n)) := by
    rcases Nat.eq_or_lt_of_le shifts with same | less
    · rw [same]
      exact Nat.add_le_add_left (roundDiv_mono le) _
    · -- the first rounds up to a power of two at most, which the second does not fall below
      have upper := roundDiv_shiftOf_le m
      have lower := le_roundDiv_shiftOf (Nat.lt_of_le_of_lt (Nat.zero_le _) less)
      have step := Nat.mul_le_mul_right perExponent less
      rw [Nat.succ_mul] at step
      omega
  omega

/-! ### Sums -/

/-- The sum of values whose exact sum is a number of units, but for the sign of a zero. -/
theorem orderKey_ofMagnitude {negative : Bool} (small : m < signBit) :
    (ofMagnitude negative m).orderKey = if negative then -(m : Int) else m := by
  rw [orderKey, isNegative_ofMagnitude small, magnitude_ofMagnitude small]

def roundedKey (total : Int) : Int :=
  if total < 0 then -(nearestMagnitude total.natAbs 1 : Int) else nearestMagnitude total.natAbs 1

theorem roundedKey_mono {first second : Int} (le : first ≤ second) :
    roundedKey first ≤ roundedKey second := by
  unfold roundedKey
  split
  · split
    · have mono := nearestMagnitude_mono (m := second.natAbs) (n := first.natAbs) (by omega)
      omega
    · omega
  · rw [if_neg (by omega)]
    have mono := nearestMagnitude_mono (m := first.natAbs) (n := second.natAbs) (by omega)
    omega

theorem nearestMagnitude_zero : nearestMagnitude 0 1 = 0 := by decide

theorem add_of_finite (first : a.isFinite = true) (second : b.isFinite = true) :
    (a.add b).isUndefined = false ∧ (a.add b).orderKey = roundedKey (a.units + b.units) := by
  unfold add
  simp only [isUndefined_of_isFinite first, isUndefined_of_isFinite second,
    isInfinite_of_isFinite first, isInfinite_of_isFinite second, Bool.false_eq_true, if_false]
  split
  next none =>
    have zero : 0 < signBit := by decide
    rw [none, isUndefined, magnitude_ofMagnitude zero, orderKey_ofMagnitude zero, roundedKey,
      if_neg (Int.lt_irrefl 0), Int.natAbs_zero, nearestMagnitude_zero]
    refine ⟨by decide, ?_⟩
    split <;> rfl
  next some =>
    have bound := nearestMagnitude_le (a.units + b.units).natAbs 1
    have small := Nat.lt_of_le_of_lt bound infiniteMagnitude_lt
    rw [isUndefined, magnitude_ofMagnitude small, orderKey_ofMagnitude small, roundedKey]
    refine ⟨by simpa using bound, ?_⟩
    by_cases negative : a.units + b.units < 0 <;> simp [negative]

theorem add_of_infinite (infinite : a.isInfinite = true) (finite : c.isFinite = true) :
    a.add c = a := by
  have defined : a.isUndefined = false := by
    simp only [isInfinite, isUndefined, beq_iff_eq, decide_eq_false_iff_not] at infinite ⊢
    omega
  simp [add, defined, isUndefined_of_isFinite finite, infinite, isInfinite_of_isFinite finite]

theorem orderKey_bounds (defined : a.isUndefined = false) :
    -(infiniteMagnitude : Int) ≤ a.orderKey ∧ a.orderKey ≤ infiniteMagnitude := by
  simp only [isUndefined, decide_eq_false_iff_not] at defined
  unfold orderKey
  split <;> omega

theorem orderKey_of_infinite (infinite : a.isInfinite = true) : a.orderKey =
    if a.isNegative then -(infiniteMagnitude : Int) else infiniteMagnitude := by
  rw [orderKey, beq_iff_eq.mp infinite]

theorem isInfinite_of_orderKey (key : a.orderKey = infiniteMagnitude) : a.isInfinite = true := by
  have positive : 0 < infiniteMagnitude := by decide
  rw [isInfinite, beq_iff_eq]
  unfold orderKey at key
  split at key <;> omega

theorem isUndefined_add (defined : a.isUndefined = false) (finite : c.isFinite = true) :
    (a.add c).isUndefined = false := by
  cases infinite : a.isInfinite with
  | true => rwa [add_of_infinite infinite finite]
  | false => exact (add_of_finite (isFinite_of_defined defined infinite) finite).1

theorem add_le_add_right (finite : c.isFinite = true) (le : a ≤ b) : a.add c ≤ b.add c := by
  obtain ⟨first, second, keys⟩ := le
  have one := isUndefined_add first finite
  have other := isUndefined_add second finite
  refine ⟨one, other, ?_⟩
  have lower := orderKey_bounds second
  have upper := orderKey_bounds first
  cases left : a.isInfinite with
  | true =>
    have key := orderKey_of_infinite left
    rw [add_of_infinite left finite]
    cases negative : a.isNegative with
    | true =>
      rw [key, negative, if_pos rfl]
      exact (orderKey_bounds other).1
    | false =>
      rw [negative, if_neg Bool.false_ne_true] at key
      have right : b.isInfinite = true := isInfinite_of_orderKey (by omega)
      rwa [add_of_infinite right finite]
  | false =>
    have small := isFinite_of_defined first left
    cases right : b.isInfinite with
    | true =>
      have key := orderKey_of_infinite right
      rw [add_of_infinite right finite]
      cases negative : b.isNegative with
      | true =>
        -- then the first value would be infinite as well
        rw [negative, if_pos rfl] at key
        simp only [isFinite, decide_eq_true_eq] at small
        unfold orderKey at keys key upper
        split at keys <;> omega
      | false =>
        rw [key, negative, if_neg Bool.false_ne_true]
        exact (orderKey_bounds one).2
    | false =>
      rw [(add_of_finite small finite).2,
        (add_of_finite (isFinite_of_defined second right) finite).2]
      exact roundedKey_mono (Int.add_le_add_right (units_mono keys) _)

/-! ### Differences -/

theorem subtract_of_finite (finite : c.isFinite = true) (a : Seconds) :
    a - c = a.add c.negate := by
  change a.subtract c = _
  rw [subtract, isUndefined_of_isFinite finite, if_neg Bool.false_ne_true]

theorem isFinite_negate (c : Seconds) : c.negate.isFinite = c.isFinite := by
  rw [isFinite, magnitude_negate, isFinite]

theorem sub_le_sub_right (finite : c.isFinite = true) (le : a ≤ b) : a - c ≤ b - c := by
  rw [subtract_of_finite finite, subtract_of_finite finite]
  exact add_le_add_right ((isFinite_negate c).trans finite) le

theorem sub_self_of_finite (finite : c.isFinite = true) : c - c = zero := by
  have negated := (isFinite_negate c).trans finite
  have none : c.units + c.negate.units = 0 := by
    rw [units_negate]
    omega
  rw [subtract_of_finite finite, add, none]
  simp only [isUndefined_of_isFinite finite, isUndefined_of_isFinite negated,
    isInfinite_of_isFinite finite, isInfinite_of_isFinite negated, isNegative_negate,
    Bool.and_not_self, Bool.false_eq_true, if_false, if_true]
  rfl

theorem isUndefined_sub_left (undefined : a.isUndefined = true) (c : Seconds) :
    (a - c).isUndefined = true := by
  have same : ∀ other, a.add other = a := by
    intro other
    rw [add, if_pos undefined]
  change (a.subtract c).isUndefined = true
  rw [subtract, same, same, ite_self, undefined]

/-- No time that is not finite differs from itself by a number. -/
theorem isUndefined_sub_self (other : c.isFinite = false) : (c - c).isUndefined = true := by
  cases undefined : c.isUndefined with
  | true => exact isUndefined_sub_left undefined c
  | false =>
    have infinite : c.isInfinite = true := by
      simp only [isFinite, isUndefined, decide_eq_false_iff_not, Nat.not_lt] at other undefined
      exact beq_iff_eq.mpr (Nat.le_antisymm undefined other)
    have negated : c.negate.isUndefined = false := by
      rwa [isUndefined, magnitude_negate, ← isUndefined]
    have also : c.negate.isInfinite = true := by
      rwa [isInfinite, magnitude_negate, ← isInfinite]
    have opposite : (c.isNegative != !c.isNegative) = true := by cases c.isNegative <;> rfl
    change (c.subtract c).isUndefined = true
    rw [subtract, undefined, if_neg Bool.false_ne_true, add]
    simp only [undefined, negated, infinite, also, isNegative_negate, opposite, Bool.false_eq_true,
      if_false, if_true, Bool.true_and]
    decide

end ProfileTrace.Seconds
