import ProfileTrace.Proofs.Seconds.Order

/-! Signs of sums and differences. Rounding may take a sum to a zero or to infinity, but never to
the other side of zero. -/

namespace ProfileTrace.Seconds

variable {a b : Seconds} {m n : Nat} {negative : Bool}

/-! ### Encodings -/

theorem toNat_ofMagnitude (small : m < signBit) :
    (ofMagnitude negative m).bits.toNat = if negative then signBit + m else m := by
  apply UInt64.toNat_ofNat_of_lt'
  change _ < 0x10000000000000000
  simp only [signBit] at small ⊢
  split <;> omega

theorem magnitude_ofMagnitude (small : m < signBit) : (ofMagnitude negative m).magnitude = m := by
  rw [magnitude, toNat_ofMagnitude small]
  cases negative with
  | false => exact Nat.mod_eq_of_lt small
  | true =>
    rw [if_pos rfl, Nat.add_mod_left]
    exact Nat.mod_eq_of_lt small

theorem isNegative_ofMagnitude (small : m < signBit) :
    (ofMagnitude negative m).isNegative = negative := by
  rw [isNegative, toNat_ofMagnitude small]
  cases negative with
  | false => simpa using small
  | true => simp

theorem magnitude_lt (a : Seconds) : a.magnitude < signBit := Nat.mod_lt _ (by decide)

theorem ofMagnitude_magnitude (a : Seconds) : ofMagnitude a.isNegative a.magnitude = a := by
  have value : (if a.isNegative then signBit + a.magnitude else a.magnitude) = a.bits.toNat := by
    have bounded := a.bits.toNat_lt
    cases sign : a.isNegative with
    | true =>
      have large := of_decide_eq_true sign
      simp only [magnitude, signBit, if_true] at large ⊢
      omega
    | false =>
      have small := of_decide_eq_false sign
      exact Nat.mod_eq_of_lt (Nat.lt_of_not_le small)
  rw [ofMagnitude, value, UInt64.ofNat_toNat]

theorem magnitude_negate (a : Seconds) : a.negate.magnitude = a.magnitude :=
  magnitude_ofMagnitude a.magnitude_lt

theorem isNegative_negate (a : Seconds) : a.negate.isNegative = !a.isNegative :=
  isNegative_ofMagnitude a.magnitude_lt

theorem infiniteMagnitude_lt : infiniteMagnitude < signBit := by decide

theorem nearestMagnitude_le (n d : Nat) : nearestMagnitude n d ≤ infiniteMagnitude :=
  Nat.min_le_right _ _

/-! ### Units -/

theorem magnitudeUnits_mono (le : m ≤ n) : magnitudeUnits m ≤ magnitudeUnits n := by
  unfold magnitudeUnits spacing
  split
  next low =>
    split
    · exact le
    next high =>
      have positive := Nat.two_pow_pos (n / perExponent - 1)
      calc
        m ≤ perExponent + n % perExponent := by omega
        _ ≤ (perExponent + n % perExponent) * Nat.pow 2 (n / perExponent - 1) :=
          Nat.le_mul_of_pos_right _ positive
  next high =>
    rw [if_neg (Nat.not_lt.mpr (Nat.le_trans (Nat.not_lt.mp high) le))]
    have first := Nat.div_le_div_right (c := perExponent) le
    rcases Nat.eq_or_lt_of_le first with same | less
    · -- of two values with one exponent the larger has the larger fraction
      rw [same]
      apply Nat.mul_le_mul_right
      have lower := Nat.div_add_mod m perExponent
      have upper := Nat.div_add_mod n perExponent
      rw [same] at lower
      omega
    · have positive : 0 < m / perExponent := Nat.div_pos (Nat.not_lt.mp high) (by decide)
      have fraction := Nat.mod_lt m (show 0 < perExponent by decide)
      calc
        (perExponent + m % perExponent) * Nat.pow 2 (m / perExponent - 1)
          ≤ (perExponent * 2) * Nat.pow 2 (m / perExponent - 1) :=
            Nat.mul_le_mul_right _ (by omega)
        _ = perExponent * Nat.pow 2 (m / perExponent) := by
          have next : Nat.pow 2 (m / perExponent - 1 + 1) = Nat.pow 2 (m / perExponent - 1) * 2 :=
            Nat.pow_succ 2 _
          rw [Nat.mul_assoc, Nat.mul_comm 2, ← next, Nat.sub_add_cancel positive]
        _ ≤ (perExponent + n % perExponent) * Nat.pow 2 (n / perExponent - 1) :=
          Nat.mul_le_mul (Nat.le_add_right _ _) (Nat.pow_le_pow_right (by decide) (by omega))

theorem units_mono (le : a.orderKey ≤ b.orderKey) : a.units ≤ b.units := by
  have zero : magnitudeUnits 0 = 0 := by decide
  unfold orderKey at le
  unfold units
  cases first : a.isNegative <;> cases second : b.isNegative <;>
    simp only [first, second, Bool.false_eq_true, if_true, if_false] at le ⊢
  case false.false => exact Int.ofNat_le.mpr (magnitudeUnits_mono (Int.ofNat_le.mp le))
  case false.true =>
    have none : a.magnitude = 0 ∧ b.magnitude = 0 := by omega
    rw [none.1, none.2, zero]
    decide
  case true.false => omega
  case true.true =>
    have units := magnitudeUnits_mono (m := b.magnitude) (n := a.magnitude) (by omega)
    omega

theorem units_negate (a : Seconds) : a.negate.units = -a.units := by
  rw [units, units, isNegative_negate, magnitude_negate]
  cases a.isNegative <;> simp

/-! ### Signs -/

theorem zero_le_iff : zero ≤ a ↔ a.isUndefined = false ∧ 0 ≤ a.orderKey := by
  have key : zero.orderKey = 0 := by decide
  have defined : zero.isUndefined = false := by decide
  rw [le_iff, key]
  simp only [defined, true_and]

theorem zero_le_ofMagnitude (small : m ≤ infiniteMagnitude) (sign : negative = true → m = 0) :
    zero ≤ ofMagnitude negative m := by
  have less := Nat.lt_of_le_of_lt small infiniteMagnitude_lt
  rw [zero_le_iff, isUndefined, orderKey, magnitude_ofMagnitude less, isNegative_ofMagnitude less]
  cases negative with
  | false => simpa using small
  | true => simp [sign]

/-- A sum of finite values has the sign of the exact sum. -/
theorem zero_le_add_of_units (first : a.isFinite = true) (second : b.isFinite = true)
    (sum : 0 ≤ a.units + b.units) : zero ≤ a.add b := by
  unfold add
  simp only [isUndefined_of_isFinite first, isUndefined_of_isFinite second,
    isInfinite_of_isFinite first, isInfinite_of_isFinite second, Bool.false_eq_true, if_false]
  split
  · exact zero_le_ofMagnitude (Nat.zero_le _) fun _ => rfl
  · apply zero_le_ofMagnitude (nearestMagnitude_le _ _)
    intro negative
    simp only [decide_eq_true_eq] at negative
    omega

theorem units_nonneg (nonneg : zero ≤ a) : 0 ≤ a.units := by
  have zero : zero.units = 0 := by decide
  rw [← zero]
  exact units_mono nonneg.2.2

theorem isFinite_of_defined (defined : a.isUndefined = false) (bounded : a.isInfinite = false) :
    a.isFinite = true := by
  simp only [isUndefined, isInfinite, isFinite, decide_eq_false_iff_not, decide_eq_true_eq,
    beq_eq_false_iff_ne] at defined bounded ⊢
  omega

theorem isNegative_of_infinite (nonneg : zero ≤ a) (infinite : a.isInfinite = true) :
    a.isNegative = false := by
  have key := (zero_le_iff.mp nonneg).2
  have magnitude := beq_iff_eq.mp infinite
  have positive : 0 < infiniteMagnitude := by decide
  cases negative : a.isNegative with
  | false => rfl
  | true =>
    rw [orderKey, negative, if_pos rfl] at key
    omega

theorem zero_le_add (first : zero ≤ a) (second : zero ≤ b) : zero ≤ a + b := by
  change zero ≤ a.add b
  have one := (zero_le_iff.mp first).1
  have other := (zero_le_iff.mp second).1
  cases left : a.isInfinite with
  | true =>
    cases right : b.isInfinite with
    | true => simpa [add, one, other, left, right, isNegative_of_infinite first left,
        isNegative_of_infinite second right] using first
    | false => simpa [add, one, other, left, right] using first
  | false =>
    cases right : b.isInfinite with
    | true => simpa [add, one, other, left, right] using second
    | false =>
      have sum := Int.add_nonneg (units_nonneg first) (units_nonneg second)
      exact zero_le_add_of_units (isFinite_of_defined one left) (isFinite_of_defined other right) sum

theorem zero_le_sub (first : a.isFinite = true) (second : b.isFinite = true) (le : a ≤ b) :
    zero ≤ b - a := by
  have negated : a.negate.isFinite = true := by
    rwa [isFinite, magnitude_negate]
  have units := units_mono le.2.2
  change zero ≤ b.subtract a
  rw [subtract, isUndefined_of_isFinite first, if_neg Bool.false_ne_true]
  apply zero_le_add_of_units second negated
  rw [units_negate]
  omega

theorem zero_le_sum {values : List Seconds} (nonneg : ∀ value ∈ values, zero ≤ value) :
    zero ≤ sum values := by
  have start : zero ≤ negativeZero := by decide
  unfold sum
  generalize negativeZero = total at start
  induction values generalizing total with
  | nil => exact start
  | cons value values ih =>
    apply ih fun other later => nonneg other (List.mem_cons_of_mem _ later)
    exact zero_le_add start (nonneg value List.mem_cons_self)

end ProfileTrace.Seconds
