import ProfileTrace.Proofs.Seconds.Nearest

/-! The search for the shortest digits of a time. Seventeen digits are enough for it to find some,
and what it finds rounds to the time. -/

namespace ProfileTrace.Seconds

variable {magnitude point : Nat} {place : Int}

/-! ### Points of a grid -/

theorem spacing_le_magnitudeUnits (positive : 0 < magnitude) :
    spacing magnitude ≤ magnitudeUnits magnitude := by
  unfold magnitudeUnits
  split
  next small =>
    have one : spacing magnitude = 1 := by
      rw [spacing, Nat.div_eq_of_lt small]
    rwa [one]
  next =>
    have some : 0 < perExponent := by decide
    exact Nat.le_mul_of_pos_left _ (Nat.add_pos_left some _)

theorem magnitudeUnits_lt (magnitude : Nat) :
    magnitudeUnits magnitude < 2 * perExponent * spacing magnitude := by
  have gap : 0 < spacing magnitude := Nat.two_pow_pos _
  unfold magnitudeUnits
  split
  next small =>
    calc
      magnitude < 2 * perExponent := Nat.lt_of_lt_of_le small (by decide)
      _ ≤ 2 * perExponent * spacing magnitude := Nat.le_mul_of_pos_right _ gap
  next =>
    have part : magnitude % perExponent < perExponent := Nat.mod_lt _ (by decide)
    exact Nat.mul_lt_mul_of_pos_right (by omega) gap

theorem roundingInterval_pos (positive : 0 < magnitude) : 0 < (roundingInterval magnitude).1 := by
  have gap : 0 < spacing magnitude := Nat.two_pow_pos _
  have large := spacing_le_magnitudeUnits positive
  simp only [roundingInterval]
  split <;> omega

theorem holds_of_first {p : Nat → Bool} {first second point : Nat}
    (found : (if p first then some first else if p second then some second else none) =
      some point) : p point = true := by
  split at found
  next holds => rwa [← Option.some.inj found]
  next =>
    split at found
    next holds => rwa [← Option.some.inj found]
    next => cases found

theorem isSome_first {p : Nat → Bool} {first second : Nat} (holds : p first = true) :
    (if p first then some first else if p second then some second else none).isSome := by
  rw [if_pos holds, Option.isSome_some]

/-- A point lies in the rounding interval. Its ends belong to it where the last bit is zero. -/
def isInside (magnitude : Nat) (place : Int) (point : Nat) : Bool :=
  let up := Nat.pow 10 (-place).toNat
  let one := 4 * Nat.pow 2 unitExponent * Nat.pow 10 place.toNat
  if magnitude % 2 = 0 then
    (roundingInterval magnitude).1 * up ≤ point * one &&
      point * one ≤ (roundingInterval magnitude).2.2 * up
  else
    (roundingInterval magnitude).1 * up < point * one &&
      point * one < (roundingInterval magnitude).2.2 * up

theorem isInside_of_gridPoint? (found : gridPoint? magnitude place = some point) :
    isInside magnitude place point = true :=
  holds_of_first (p := isInside magnitude place) found

theorem isSome_gridPoint?_of_isInside (inside : isInside magnitude place
    (roundDiv (4 * magnitudeUnits magnitude * Nat.pow 10 (-place).toNat)
      (4 * Nat.pow 2 unitExponent * Nat.pow 10 place.toNat)) = true) :
    (gridPoint? magnitude place).isSome :=
  isSome_first (p := isInside magnitude place) inside

theorem roundsTo_of_isInside (inside : isInside magnitude place point = true) :
    RoundsTo (point * 10 ^ place.toNat * 2 ^ unitExponent) (10 ^ (-place).toNat) magnitude := by
  have scaled : point * (4 * 2 ^ unitExponent * 10 ^ place.toNat) =
      4 * (point * 10 ^ place.toNat * 2 ^ unitExponent) := by ring
  simp only [isInside, Nat.pow_eq, scaled] at inside
  unfold RoundsTo
  split
  all_goals
    next parity =>
      simpa only [parity, if_true, if_false, Bool.and_eq_true, decide_eq_true_eq] using inside

theorem roundsTo_of_gridPoint? (found : gridPoint? magnitude place = some point) :
    RoundsTo (point * 10 ^ place.toNat * 2 ^ unitExponent) (10 ^ (-place).toNat) magnitude :=
  roundsTo_of_isInside (isInside_of_gridPoint? found)

theorem isInside_of_lt {up one : Nat} (upper : 10 ^ (-place).toNat = up)
    (step : 4 * 2 ^ unitExponent * 10 ^ place.toNat = one)
    (low : (roundingInterval magnitude).1 * up < point * one)
    (high : point * one < (roundingInterval magnitude).2.2 * up) :
    isInside magnitude place point = true := by
  unfold isInside
  simp only [Nat.pow_eq, upper, step]
  split
  · simp only [Nat.le_of_lt low, Nat.le_of_lt high, decide_true, Bool.and_true]
  · simp only [low, high, decide_true, Bool.and_true]

theorem gridPoint?_pos (positive : 0 < magnitude)
    (found : gridPoint? magnitude place = some point) : 0 < point := by
  have low : 0 < (roundingInterval magnitude).1 * 10 ^ (-place).toNat :=
    Nat.mul_pos (roundingInterval_pos positive) (Nat.pow_pos (by decide))
  have rounds := roundsTo_of_gridPoint? found
  apply Nat.pos_of_ne_zero
  rintro rfl
  rw [RoundsTo, Nat.zero_mul, Nat.zero_mul] at rounds
  split at rounds <;> omega

theorem roundDiv_near {n d : Nat} (positive : 0 < d) :
    2 * (roundDiv n d * d) ≤ 2 * n + d ∧ 2 * n ≤ 2 * (roundDiv n d * d) + d := by
  have whole := Nat.div_add_mod' n d
  have less := Nat.mod_lt n positive
  have next : (n / d + 1) * d = n / d * d + d := Nat.succ_mul _ _
  unfold roundDiv
  simp only
  split
  · omega
  · split
    · omega
    · rcases Nat.mod_two_eq_zero_or_one (n / d) with even | odd
      · rw [even, Nat.add_zero]
        omega
      · rw [odd]
        omega

theorem roundingInterval_near (positive : 0 < magnitude) :
    (roundingInterval magnitude).1 + spacing magnitude ≤ 4 * magnitudeUnits magnitude ∧
      4 * magnitudeUnits magnitude + spacing magnitude ≤ (roundingInterval magnitude).2.2 := by
  have large := spacing_le_magnitudeUnits positive
  simp only [roundingInterval]
  split <;> omega

/-- A grid that is finer than the spacing has a point that rounds to the value. -/
theorem isSome_gridPoint? (positive : 0 < magnitude) (fine :
    2 * 2 ^ unitExponent * 10 ^ place.toNat < spacing magnitude * 10 ^ (-place).toNat) :
    (gridPoint? magnitude place).isSome := by
  obtain ⟨up, upper⟩ : ∃ up, 10 ^ (-place).toNat = up := ⟨_, rfl⟩
  obtain ⟨unit, same⟩ : ∃ unit, 2 ^ unitExponent = unit := ⟨_, rfl⟩
  obtain ⟨one, step⟩ : ∃ one, 4 * unit * 10 ^ place.toNat = one := ⟨_, rfl⟩
  obtain ⟨nearest, rounded⟩ : ∃ nearest,
    roundDiv (4 * magnitudeUnits magnitude * up) one = nearest := ⟨_, rfl⟩
  have some : 0 < one := by
    rw [← step, ← same]
    exact Nat.mul_pos (Nat.mul_pos (by decide) (Nat.two_pow_pos _)) (Nat.pow_pos (by decide))
  have half : one < 2 * (spacing magnitude * up) := by
    rw [same, upper] at fine
    calc
      one = 2 * (2 * unit * 10 ^ place.toNat) := by
        rw [← step]
        ring
      _ < 2 * (spacing magnitude * up) := Nat.mul_lt_mul_of_pos_left fine (by decide)
  have near := roundDiv_near some (n := 4 * magnitudeUnits magnitude * up)
  rw [rounded] at near
  obtain ⟨below, above⟩ := roundingInterval_near positive
  have below := Nat.mul_le_mul_right up below
  have above := Nat.mul_le_mul_right up above
  rw [Nat.add_mul] at below above
  have low : (roundingInterval magnitude).1 * up < nearest * one := by omega
  have high : nearest * one < (roundingInterval magnitude).2.2 * up := by omega
  apply isSome_gridPoint?_of_isInside
  simp only [Nat.pow_eq, upper, same, step, rounded]
  exact isInside_of_lt upper (by rw [same, step]) low high

/-! ### Enough digits -/

theorem ten_pow_le_two_pow {m n : Nat} (few : m ≤ 100000) (least : 100000 * (m + 1) ≤ 30103 * n) :
    10 ^ m ≤ 2 ^ n := by
  have base : 10 ^ 30103 ≤ 2 ^ 100001 := by decide +kernel
  exact pow_le_pow_of_base base (by decide) (by decide) (by omega)

theorem powerLe_iff {exponent : Int} {units : Nat} : powerLe exponent units = true ↔
    10 ^ exponent.toNat * 2 ^ unitExponent ≤ units * 10 ^ (-exponent).toNat := by
  unfold powerLe
  split
  next above =>
    rw [show (-exponent).toNat = 0 by omega, Nat.pow_zero, Nat.mul_one, decide_eq_true_iff,
      Nat.pow_eq, Nat.pow_eq]
  next below =>
    rw [show exponent.toNat = 0 by omega, show (-exponent).toNat = exponent.natAbs by omega,
      Nat.pow_zero, Nat.one_mul, decide_eq_true_iff, Nat.pow_eq, Nat.pow_eq]

theorem powerLe_of_log2 {exponent : Int} {units : Nat} (some : units ≠ 0) (few : exponent ≤ 100000)
    (least : 100000 * (exponent + 1) ≤ 30103 * ((units.log2 : Int) - unitExponent)) :
    powerLe exponent units = true := by
  have power : 2 ^ units.log2 ≤ units := Nat.log2_self_le some
  rw [powerLe_iff]
  by_cases above : 0 ≤ exponent
  · have tens : 10 ^ exponent.toNat ≤ 2 ^ (units.log2 - unitExponent) :=
      ten_pow_le_two_pow (by omega) (by omega)
    rw [show (-exponent).toNat = 0 by omega, Nat.pow_zero, Nat.mul_one]
    calc
      10 ^ exponent.toNat * 2 ^ unitExponent ≤
          2 ^ (units.log2 - unitExponent) * 2 ^ unitExponent := Nat.mul_le_mul_right _ tens
      _ = 2 ^ units.log2 := by rw [← Nat.pow_add, Nat.sub_add_cancel (by omega)]
      _ ≤ units := power
  · have twos : 2 ^ (unitExponent - units.log2) ≤ 10 ^ (-exponent).toNat :=
      two_pow_le_ten_pow (by omega)
    rw [show exponent.toNat = 0 by omega, Nat.pow_zero, Nat.one_mul]
    calc
      2 ^ unitExponent ≤ 2 ^ (units.log2 + (unitExponent - units.log2)) :=
        Nat.pow_le_pow_right (by decide) (by omega)
      _ = 2 ^ units.log2 * 2 ^ (unitExponent - units.log2) := Nat.pow_add ..
      _ ≤ units * 10 ^ (-exponent).toNat := Nat.mul_le_mul power twos

theorem powerLe_leadingPlace {units : Nat} (some : units ≠ 0) (few : units.log2 ≤ 2098) :
    powerLe (leadingPlace units) units = true := by
  unfold leadingPlace
  simp only
  split
  next holds => exact holds
  next =>
    split
    next holds => exact holds
    next =>
      unfold unitExponent
      apply powerLe_of_log2 some
      · omega
      · unfold unitExponent
        omega

theorem log2_magnitudeUnits_le (finite : magnitude < infiniteMagnitude) :
    (magnitudeUnits magnitude).log2 ≤ 2098 := by
  have exponent : magnitude / perExponent - 1 ≤ 2045 := by
    have less : magnitude / perExponent < 0x7FF := Nat.div_lt_of_lt_mul
      ((Nat.mul_comm perExponent 0x7FF).symm ▸ finite)
    omega
  by_cases none : magnitudeUnits magnitude = 0
  · rw [none]
    exact Nat.zero_le _
  · have less : magnitudeUnits magnitude < 2 ^ (53 + (magnitude / perExponent - 1)) := by
      rw [Nat.pow_add]
      exact magnitudeUnits_lt magnitude
    have most := (Nat.log2_lt none).mpr less
    omega

/-- Seventeen digits behind the first one are as fine as any spacing. -/
theorem fine_of_powerLe (leading : powerLe (place + 17) (magnitudeUnits magnitude) = true) :
    2 * 2 ^ unitExponent * 10 ^ place.toNat < spacing magnitude * 10 ^ (-place).toNat := by
  obtain ⟨unit, same⟩ : ∃ unit, 2 ^ unitExponent = unit := ⟨_, rfl⟩
  have less := magnitudeUnits_lt magnitude
  have places : (place + 17).toNat + (-place).toNat = 17 + place.toNat + (-(place + 17)).toNat := by
    omega
  have some : 0 < 10 ^ (-place).toNat := Nat.pow_pos (by decide)
  rw [powerLe_iff, same] at leading
  rw [same]
  have larger : 2 * perExponent * (2 * unit * 10 ^ place.toNat) * 10 ^ (-(place + 17)).toNat <
      2 * perExponent * (spacing magnitude * 10 ^ (-place).toNat) * 10 ^ (-(place + 17)).toNat := by
    calc
      2 * perExponent * (2 * unit * 10 ^ place.toNat) * 10 ^ (-(place + 17)).toNat =
          2 * perExponent * 2 * (unit * 10 ^ place.toNat * 10 ^ (-(place + 17)).toNat) := by ring
      _ ≤ 10 ^ 17 * (unit * 10 ^ place.toNat * 10 ^ (-(place + 17)).toNat) :=
        Nat.mul_le_mul_right _ (by decide)
      _ = unit * 10 ^ (17 + place.toNat + (-(place + 17)).toNat) := by ring
      _ = 10 ^ (place + 17).toNat * unit * 10 ^ (-place).toNat := by
        rw [← places]
        ring
      _ ≤ magnitudeUnits magnitude * 10 ^ (-(place + 17)).toNat * 10 ^ (-place).toNat :=
        Nat.mul_le_mul_right _ leading
      _ < 2 * perExponent * spacing magnitude * 10 ^ (-(place + 17)).toNat * 10 ^ (-place).toNat :=
        Nat.mul_lt_mul_of_pos_right
          (Nat.mul_lt_mul_of_pos_right less (Nat.pow_pos (by decide))) some
      _ = 2 * perExponent * (spacing magnitude * 10 ^ (-place).toNat) *
          10 ^ (-(place + 17)).toNat := by ring
  exact Nat.lt_of_mul_lt_mul_left (Nat.lt_of_mul_lt_mul_right larger)

theorem exists_point (positive : 0 < magnitude) (finite : magnitude < infiniteMagnitude) :
    ∃ point place, gridPoint? magnitude place = some point ∧
      shortest magnitude = withoutZeros point place := by
  have some : magnitudeUnits magnitude ≠ 0 := by
    have gap : 0 < spacing magnitude := Nat.two_pow_pos _
    have large := spacing_le_magnitudeUnits positive
    omega
  have leading := powerLe_leadingPlace some (log2_magnitudeUnits_le finite)
  apply exists_shortest (show 17 < 18 by decide)
  apply isSome_gridPoint? positive
  apply fine_of_powerLe
  rwa [show ((17 : Nat) : Int) = 17 from rfl, Int.sub_add_cancel]

theorem digits_withoutZeros_pos {digits : Nat} (positive : 0 < digits) (exponent : Int) :
    0 < (withoutZeros digits exponent).digits := by
  fun_induction withoutZeros digits exponent with
  | case1 digits exponent ending ih => exact ih (by omega)
  | case2 digits exponent other => exact positive

theorem ofDecimal_withoutZeros (negative : Bool) (digits : Nat) (exponent : Int) :
    ofDecimal negative (withoutZeros digits exponent).digits
      (withoutZeros digits exponent).exponent = ofDecimal negative digits exponent := by
  fun_induction withoutZeros digits exponent with
  | case1 digits exponent ending ih =>
    have same : digits / 10 * 10 ^ 1 = digits := by omega
    have zero := ofDecimal_mul_pow negative (digits / 10) 1 (exponent + 1)
    rw [same, Int.natCast_one, Int.add_sub_cancel] at zero
    rw [ih, zero]
  | case2 digits exponent other => rfl

theorem shortest_pos (positive : 0 < magnitude) (finite : magnitude < infiniteMagnitude) :
    0 < (shortest magnitude).digits := by
  obtain ⟨point, place, found, same⟩ := exists_point positive finite
  rw [same]
  exact digits_withoutZeros_pos (gridPoint?_pos positive found) place

theorem ofDecimal_shortest (negative : Bool) (positive : 0 < magnitude)
    (finite : magnitude < infiniteMagnitude) :
    ofDecimal negative (shortest magnitude).digits (shortest magnitude).exponent =
      ofMagnitude negative magnitude := by
  obtain ⟨point, place, found, same⟩ := exists_point positive finite
  rw [same, ofDecimal_withoutZeros,
    ofDecimal_of_roundsTo negative finite (roundsTo_of_gridPoint? found)]

end ProfileTrace.Seconds
