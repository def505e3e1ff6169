import ProfileTrace.Seconds.Basic

/-! The two orders of times. The total order tells all of them apart; in the numeric order the
zeros are equal, and an undefined value is not comparable to anything. -/

namespace ProfileTrace.Seconds

theorem totalLe_trans (a b c : Seconds) (first : a.totalLe b = true) (second : b.totalLe c = true) :
    a.totalLe c = true := by
  simp only [totalLe, decide_eq_true_eq] at first second ⊢
  omega

theorem totalLe_total (a b : Seconds) : (a.totalLe b || b.totalLe a) = true := by
  simp only [totalLe, Bool.or_eq_true, decide_eq_true_eq]
  omega

/-- The numeric order of the values that are defined. -/
instance : LE Seconds :=
  ⟨fun a b => a.isUndefined = false ∧ b.isUndefined = false ∧ a.orderKey ≤ b.orderKey⟩

instance (a b : Seconds) : Decidable (a ≤ b) :=
  inferInstanceAs (Decidable (_ ∧ _ ∧ _))

variable {a b c : Seconds}

theorem le_iff :
    a ≤ b ↔ a.isUndefined = false ∧ b.isUndefined = false ∧ a.orderKey ≤ b.orderKey :=
  Iff.rfl

theorem le_refl_of_defined (defined : a.isUndefined = false) : a ≤ a :=
  ⟨defined, defined, Int.le_refl _⟩

theorem le_trans (first : a ≤ b) (second : b ≤ c) : a ≤ c :=
  ⟨first.1, second.2.1, Int.le_trans first.2.2 second.2.2⟩

theorem le_of_totalLe (first : a.isUndefined = false) (second : b.isUndefined = false)
    (below : a.totalLe b = true) : a ≤ b := by
  refine ⟨first, second, ?_⟩
  simp only [totalLe, decide_eq_true_eq] at below
  unfold totalKey at below
  unfold orderKey
  cases left : a.isNegative <;> cases right : b.isNegative <;>
    simp only [left, right, Bool.false_eq_true, if_true, if_false] at below ⊢ <;> omega

theorem isUndefined_of_isFinite (finite : a.isFinite = true) : a.isUndefined = false := by
  simp only [isFinite, isUndefined, decide_eq_true_eq, decide_eq_false_iff_not] at finite ⊢
  omega

theorem isInfinite_of_isFinite (finite : a.isFinite = true) : a.isInfinite = false := by
  simp only [isFinite, isInfinite, decide_eq_true_eq, beq_eq_false_iff_ne] at finite ⊢
  omega

theorem latest_eq_or (a b : Seconds) : a.latest b = a ∨ a.latest b = b := by
  unfold latest
  split
  · exact .inr rfl
  · exact .inl rfl

theorem latest_of_defined (first : a.isUndefined = false) (second : b.isUndefined = false) :
    a.latest b = if b.orderKey < a.orderKey then a else b := by
  by_cases before : b.orderKey < a.orderKey <;> simp [latest, less, first, second, before]

theorem latest_of_undefined_left (undefined : a.isUndefined = true) : a.latest b = b := by
  simp [latest, undefined]

theorem latest_of_undefined_right (defined : a.isUndefined = false)
    (undefined : b.isUndefined = true) : a.latest b = a := by
  simp [latest, defined, undefined]

theorem le_latest_left (defined : a.isUndefined = false) (b : Seconds) : a ≤ a.latest b := by
  cases other : b.isUndefined with
  | true =>
    rw [latest_of_undefined_right defined other]
    exact le_refl_of_defined defined
  | false =>
    rw [latest_of_defined defined other]
    split
    · exact le_refl_of_defined defined
    next after => exact ⟨defined, other, Int.not_lt.mp after⟩

theorem le_latest_right (defined : b.isUndefined = false) (a : Seconds) : b ≤ a.latest b := by
  cases other : a.isUndefined with
  | true =>
    rw [latest_of_undefined_left other]
    exact le_refl_of_defined defined
  | false =>
    rw [latest_of_defined other defined]
    split
    next before => exact ⟨defined, other, Int.le_of_lt before⟩
    · exact le_refl_of_defined defined

end ProfileTrace.Seconds
