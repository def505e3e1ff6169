import Mathlib.Data.List.TakeDrop
import Mathlib.Data.List.TakeWhile
import ProfileTrace.Proofs.Seconds.Shortest

/-! Texts of times, read back. Either spelling of the fewest digits is a decimal number with these
digits in their place, so that the text of a finite time is read as the time. -/

namespace ProfileTrace.Seconds

/-! ### Digits -/

theorem isDigit_of_mem_digitChars {n : Nat} {c : Char} (among : c ∈ digitChars n) :
    c.isDigit = true :=
  Nat.isDigit_of_mem_toDigits (by decide) (by decide) among

theorem digitChars_ne_nil (n : Nat) : digitChars n ≠ [] := Nat.toDigits_ne_nil

theorem exists_digitChars {n : Nat} (positive : 0 < n) :
    ∃ first others, digitChars n = first :: others ∧ first ≠ '0' := by
  have single : ∀ digit < 10, 0 < digit → digit.digitChar ≠ '0' := by decide
  unfold digitChars
  induction n using Nat.strongRecOn with
  | ind n ih =>
    by_cases small : n < 10
    · exact ⟨n.digitChar, [], Nat.toDigits_of_lt_base small, single n small positive⟩
    · obtain ⟨first, others, same, nonzero⟩ := ih (n / 10) (by omega) (by omega)
      refine ⟨first, others ++ [(n % 10).digitChar], ?_, nonzero⟩
      rw [Nat.toDigits_of_base_le (by decide) (by omega), same, List.cons_append]

theorem digitsValue_eq (digits : List Char) :
    digitsValue digits = Nat.ofDigitChars 10 digits 0 := by
  have step : (fun value (c : Char) => value * 10 + (c.toNat - '0'.toNat)) =
      fun value c => 10 * value + (c.toNat - '0'.toNat) := by
    funext value c
    rw [Nat.mul_comm]
  rw [digitsValue, step, Nat.ofDigitChars_eq_foldl]

theorem digitsValue_digitChars (n : Nat) : digitsValue (digitChars n) = n := by
  rw [digitsValue_eq, digitChars, Nat.ofDigitChars_ten_toDigits]

theorem digitsValue_zeros_append (zeros : Nat) (digits : List Char) :
    digitsValue (List.replicate zeros '0' ++ digits) = digitsValue digits := by
  rw [digitsValue_eq, digitsValue_eq, Nat.ofDigitChars_append, Nat.ofDigitChars_replicate_zero,
    Nat.mul_zero]

theorem digitsValue_append_zeros (zeros : Nat) (digits : List Char) :
    digitsValue (digits ++ List.replicate zeros '0') = digitsValue digits * 10 ^ zeros := by
  rw [digitsValue_eq, digitsValue_eq, Nat.ofDigitChars_append, Nat.ofDigitChars_replicate_zero,
    Nat.mul_comm]

theorem digits?_digitChars (n : Nat) : digits? (digitChars n) = some n := by
  have all : (digitChars n).all isDigit = true :=
    List.all_eq_true.mpr fun c => isDigit_of_mem_digitChars
  have some : (digitChars n).isEmpty = false := by simp [digitChars_ne_nil]
  rw [digits?, all, some, digitsValue_digitChars]
  rfl

/-! ### Decimal numbers -/

theorem takeWhile_append_stop {p : Char → Bool} {part rest : List Char}
    (inside : ∀ c ∈ part, p c = true) (stop : ∀ c ∈ rest.head?, p c = false) :
    (part ++ rest).takeWhile p = part ∧ (part ++ rest).dropWhile p = rest := by
  rw [List.takeWhile_append_of_pos inside, List.dropWhile_append_of_pos inside]
  cases rest with
  | nil => simp
  | cons c rest =>
    have stop := stop c rfl
    simp [stop]

section
variable {whole fraction rest : List Char} (some : whole ≠ [])
  (integral : ∀ c ∈ whole, c.isDigit = true)
include some integral

theorem unsignedDecimal?_point (decimal : ∀ c ∈ fraction, c.isDigit = true)
    (stop : ∀ c ∈ rest.head?, c.isDigit = false) :
    unsignedDecimal? (whole ++ '.' :: (fraction ++ rest)) =
      (exponent? rest).map fun e =>
        (digitsValue (whole ++ fraction), e - (fraction.length : Int)) := by
  have point : ∀ c ∈ ('.' :: (fraction ++ rest)).head?, isDigit c = false := by
    intro c first
    rw [← Option.some.inj first]
    rfl
  have front := @takeWhile_append_stop isDigit whole _ integral point
  have behind := @takeWhile_append_stop isDigit fraction rest decimal stop
  simp only [unsignedDecimal?, List.span_eq_takeWhile_dropWhile, front, behind]
  simp [some]

theorem unsignedDecimal?_whole (stop : ∀ c ∈ rest.head?, c.isDigit = false ∧ c ≠ '.') :
    unsignedDecimal? (whole ++ rest) =
      (exponent? rest).map fun e => (digitsValue whole, e) := by
  have front := @takeWhile_append_stop isDigit whole rest integral fun c first => (stop c first).1
  simp only [unsignedDecimal?, List.span_eq_takeWhile_dropWhile, front]
  split
  next => exact absurd rfl (stop '.' rfl).2
  next => simp [some]

end

theorem head_of_unsignedDecimal? {chars : List Char} {value : Nat × Int}
    (read : unsignedDecimal? chars = some value) :
    ∃ first others, chars = first :: others ∧ (first.isDigit = true ∨ first = '.') := by
  cases chars with
  | nil => cases read
  | cons first others =>
    refine ⟨first, others, rfl, ?_⟩
    by_contra other
    obtain ⟨plain, pointless⟩ := not_or.mp other
    have none : isDigit first = false := Bool.not_eq_true _ ▸ plain
    simp [unsignedDecimal?, List.span_eq_takeWhile_dropWhile, none, pointless] at read

theorem lowerAscii_of_digit {c : Char} (digit : c.isDigit = true ∨ c = '.') : lowerAscii c = c := by
  rcases digit with digit | rfl
  · have most : c ≤ '9' := (Bool.and_eq_true_iff.mp digit).2 |> of_decide_eq_true
    have below : ¬ 'A' ≤ c := fun least => absurd (Char.le_trans least most) (by decide)
    simp [lowerAscii, below]
  · rfl

theorem ofChars?_signChars (negative : Bool) {chars : List Char} {digits : Nat} {exponent : Int}
    (read : unsignedDecimal? chars = some (digits, exponent)) :
    ofChars? (signChars negative ++ chars) = some (ofDecimal negative digits exponent) := by
  obtain ⟨first, others, rfl, digit⟩ := head_of_unsignedDecimal? read
  have other : ∀ c ∈ ['-', '+', 'i', 'n'], first ≠ c := by
    rintro c among rfl
    simp at among
    rcases among with rfl | rfl | rfl | rfl <;> simp at digit
  have unsigned :
      splitSign (signChars negative ++ first :: others) = (negative, first :: others) := by
    cases negative with
    | true => rfl
    | false => simp [splitSign, signChars, other]
  have same := lowerAscii_of_digit digit
  simp [ofChars?, unsigned, read, same, other]

/-! ### The spellings -/

section
variable {digits : List Char} (digit : ∀ c ∈ digits, c.isDigit = true)
include digit

theorem unsignedDecimal?_positional (whole : Int) : ∃ zeros : Nat,
    unsignedDecimal? (positional digits whole) =
      .some (digitsValue digits * 10 ^ zeros, whole - digits.length - zeros) := by
  unfold positional
  split
  next below =>
    have fraction : ∀ c ∈ List.replicate whole.natAbs '0' ++ digits, c.isDigit = true := by
      intro c among
      rcases List.mem_append.mp among with zero | own
      · rw [List.eq_of_mem_replicate zero]
        rfl
      · exact digit c own
    have zero : ∀ c ∈ ['0'], c.isDigit = true := by simp
    have read := @unsignedDecimal?_point ['0'] _ [] (by decide) zero fraction (by simp)
    have value : digitsValue (['0'] ++ (List.replicate whole.natAbs '0' ++ digits)) =
        digitsValue digits := by
      rw [← digitsValue_zeros_append (whole.natAbs + 1) digits]
      rfl
    refine ⟨0, ?_⟩
    rw [value, List.append_nil] at read
    rw [List.append_assoc]
    refine read.trans ?_
    simp only [exponent?, Option.map_some, List.length_append, List.length_replicate,
      Nat.pow_zero, Nat.mul_one]
    congr 2
    omega
  next above =>
    generalize zeros : whole.toNat + 1 - digits.length = missing
    have all : ∀ c ∈ digits ++ List.replicate missing '0', c.isDigit = true := by
      intro c among
      rcases List.mem_append.mp among with own | zero
      · exact digit c own
      · rw [List.eq_of_mem_replicate zero]
        rfl
    have long : whole.toNat < (digits ++ List.replicate missing '0').length := by
      rw [List.length_append, List.length_replicate]
      omega
    have nonempty : (digits ++ List.replicate missing '0').take whole.toNat ≠ [] := by
      apply List.ne_nil_of_length_pos
      rw [List.length_take]
      omega
    have read := @unsignedDecimal?_point _ _ [] nonempty
      (fun c among => all c (List.mem_of_mem_take among))
      (fun c among => all c (List.mem_of_mem_drop (i := whole.toNat) among)) (by simp)
    rw [List.take_append_drop, digitsValue_append_zeros, List.append_nil] at read
    refine ⟨missing, read.trans ?_⟩
    simp only [exponent?, Option.map_some, List.length_drop, List.length_append,
      List.length_replicate]
    congr 2
    omega

theorem unsignedDecimal?_scientific (some : digits ≠ []) (exponent : Int) :
    unsignedDecimal? (scientific digits exponent) =
      .some (digitsValue digits, exponent + 1 - digits.length) := by
  have exponential : exponent?
      ('e' :: (if exponent < 0 then '-' else '+') :: digitChars exponent.natAbs) =
        .some exponent := by
    obtain ⟨size, same⟩ : ∃ size, exponent.natAbs = size := ⟨_, rfl⟩
    rw [same]
    split
    · simp [exponent?, splitSign, digits?_digitChars]
      omega
    · simp [exponent?, splitSign, digits?_digitChars]
      omega
  unfold scientific
  generalize rest : 'e' :: (if exponent < 0 then '-' else '+') :: digitChars exponent.natAbs = tail
    at exponential ⊢
  have marked : ∀ c ∈ tail.head?, c.isDigit = false ∧ c ≠ '.' := by
    intro c first
    rw [← rest] at first
    rw [← Option.some.inj first]
    decide
  obtain ⟨first, others, rfl⟩ := List.exists_cons_of_ne_nil some
  have leading : ∀ c ∈ [first], c.isDigit = true := by
    intro c among
    exact digit c (List.mem_cons.mpr (.inl (List.mem_singleton.mp among)))
  cases others with
  | nil =>
    have read := unsignedDecimal?_whole some leading marked
    rw [exponential] at read
    refine read.trans ?_
    simp
  | cons second others =>
    have read := unsignedDecimal?_point (List.cons_ne_nil first []) leading
      (fun c among => digit c (List.mem_cons_of_mem _ among)) fun c first => (marked c first).1
    rw [exponential] at read
    refine Eq.trans ?_ (read.trans ?_)
    · simp
    · simp

end

/-- The text of a finite time reads back as the time. -/
theorem ofChars?_shortestChars {s : Seconds} (finite : s.isFinite = true) :
    ofChars? s.shortestChars = some s := by
  unfold shortestChars
  split
  next zero =>
    have read : unsignedDecimal? ['0', '.', '0'] = some (0, -1) := by decide
    rw [ofChars?_signChars s.isNegative read, ofDecimal, if_pos rfl, ← zero, ofMagnitude_magnitude]
  next other =>
    have bounded : s.magnitude < infiniteMagnitude := of_decide_eq_true finite
    have value := ofDecimal_shortest s.isNegative (Nat.pos_of_ne_zero other) bounded
    generalize shortest s.magnitude = found at value
    have nonempty := digitChars_ne_nil found.digits
    have digit : ∀ c ∈ digitChars found.digits, c.isDigit = true := fun c =>
      isDigit_of_mem_digitChars
    simp only
    split
    next small =>
      obtain ⟨zeros, read⟩ := unsignedDecimal?_positional digit
        (found.exponent + (digitChars found.digits).length - 1 + 1)
      rw [ofChars?_signChars s.isNegative read, Int.sub_add_cancel, Int.add_sub_cancel,
        ofDecimal_mul_pow, digitsValue_digitChars, value, ofMagnitude_magnitude]
    next large =>
      have read := unsignedDecimal?_scientific digit nonempty
        (found.exponent + (digitChars found.digits).length - 1)
      rw [ofChars?_signChars s.isNegative read, Int.sub_add_cancel, Int.add_sub_cancel,
        digitsValue_digitChars, value, ofMagnitude_magnitude]

end ProfileTrace.Seconds
