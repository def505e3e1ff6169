import ProfileTrace.Document
import ProfileTrace.Proofs.Document.Reading
import ProfileTrace.Proofs.Seconds.Spelling

/-! The numbers of a document are numbers in JSON: each begins with one zero, or with another
digit, and has a digit on either side of its point. -/

namespace ProfileTrace

namespace Json
open Seconds (digitChars signChars takeWhile_append_stop)

/-! ### The parts of a number -/

theorem isDigits_digitChars (n : Nat) : isDigits (digitChars n) = true := by
  rw [isDigits, List.all_eq_true.mpr fun c => Seconds.isDigit_of_mem_digitChars]
  simpa using Seconds.digitChars_ne_nil n

theorem isWhole_cons {first : Char} {others : List Char} (digit : first.isDigit = true)
    (digits : ∀ c ∈ others, c.isDigit = true) (nonzero : first ≠ '0' ∨ others = []) :
    isWhole (first :: others) = true := by
  rw [isWhole, digit, List.all_eq_true.mpr digits]
  simpa using nonzero

theorem isWhole_digitChars (n : Nat) : isWhole (digitChars n) = true := by
  have digits : ∀ c ∈ digitChars n, c.isDigit = true := fun c => Seconds.isDigit_of_mem_digitChars
  rcases Nat.eq_zero_or_pos n with rfl | positive
  · rfl
  · obtain ⟨first, others, same, nonzero⟩ := Seconds.exists_digitChars positive
    rw [same] at digits ⊢
    exact isWhole_cons (digits first List.mem_cons_self)
      (fun c among => digits c (List.mem_cons_of_mem _ among)) (.inl nonzero)

theorem digits_of_isWhole {whole : List Char} (isWhole : isWhole whole = true) :
    ∀ c ∈ whole, c.isDigit = true := by
  cases whole with
  | nil => simp
  | cons first others =>
    simp only [Json.isWhole, Bool.and_eq_true] at isWhole
    intro c among
    rcases List.mem_cons.mp among with rfl | later
    · exact isWhole.1.1
    · exact List.all_eq_true.mp isWhole.1.2 c later

theorem ne_of_isDigit {c other : Char} (digit : c.isDigit = true) (none : other.isDigit = false) :
    c ≠ other := by
  rintro rfl
  rw [none] at digit
  cases digit

theorem isDigits_of {digits : List Char} (some : digits ≠ [])
    (digit : ∀ c ∈ digits, c.isDigit = true) : isDigits digits = true := by
  rw [isDigits, List.all_eq_true.mpr digit]
  simpa using some

theorem isFraction_cases {fraction : List Char} (isFraction : isFraction fraction = true) :
    fraction = [] ∨ ∃ digits, fraction = '.' :: digits ∧ ∀ c ∈ digits, c.isDigit = true := by
  cases fraction with
  | nil => exact .inl rfl
  | cons point digits =>
    simp only [Json.isFraction, isDigits, Bool.and_eq_true, beq_iff_eq, List.all_eq_true]
      at isFraction
    exact .inr ⟨digits, by rw [isFraction.1], isFraction.2.2⟩

theorem isNumber_append (negative : Bool) {whole fraction exponent : List Char}
    (isWhole : isWhole whole = true) (isFraction : isFraction fraction = true)
    (isExponent : isExponent exponent = true) (marked : ∀ c ∈ exponent.head?, c = 'e') :
    isNumber (signChars negative ++ (whole ++ fraction ++ exponent)) = true := by
  have digits := digits_of_isWhole isWhole
  have pointed : ∀ c ∈ fraction.head?, (c != '.') = false := by
    rcases isFraction_cases isFraction with rfl | ⟨after, rfl, -⟩ <;> simp
  have decimals : ∀ c ∈ whole ++ fraction, c.isDigit = true ∨ c = '.' := by
    intro c among
    rcases List.mem_append.mp among with inside | behind
    · exact .inl (digits c inside)
    · rcases isFraction_cases isFraction with rfl | ⟨after, rfl, digit⟩
      · cases behind
      · exact (List.mem_cons.mp behind).symm.imp_left (digit c)
  have plain : ∀ c ∈ whole ++ fraction, (c != 'e' && c != 'E') = true := by
    intro c among
    rcases decimals c among with digit | rfl
    · rw [bne_iff_ne.mpr (ne_of_isDigit digit rfl), bne_iff_ne.mpr (ne_of_isDigit digit rfl)]
      rfl
    · rfl
  have exponential : ∀ c ∈ exponent.head?, (c != 'e' && c != 'E') = false := by
    intro c first
    rw [marked c first]
    rfl
  have integral : ∀ c ∈ whole, (c != '.') = true :=
    fun c among => bne_iff_ne.mpr (ne_of_isDigit (digits c among) rfl)
  have unsigned :
      (if (signChars negative ++ (whole ++ fraction ++ exponent)).head? = some '-' then
        (signChars negative ++ (whole ++ fraction ++ exponent)).tail
      else signChars negative ++ (whole ++ fraction ++ exponent)) =
        whole ++ fraction ++ exponent := by
    cases negative with
    | true => rfl
    | false =>
      cases whole with
      | nil => cases isWhole
      | cons first others =>
        have other : first ≠ '-' := ne_of_isDigit (digits first List.mem_cons_self) rfl
        simp [signChars, other]
  have outer := takeWhile_append_stop plain exponential
  have inner := takeWhile_append_stop integral pointed
  simp only [isNumber, unsigned, outer, inner, isWhole, isFraction, isExponent, Bool.and_self]

theorem isWhole_zero : isWhole ['0'] = true := rfl

theorem isFraction_nil : isFraction [] = true := rfl

theorem isExponent_nil : isExponent [] = true := rfl

theorem isNumber_whole (negative : Bool) (n : Nat) :
    isNumber (signChars negative ++ digitChars n) = true := by
  have whole := isNumber_append negative (isWhole_digitChars n) isFraction_nil isExponent_nil
    (by simp)
  simpa using whole

/-! ### Times -/

section
variable {digits : List Char} (nonempty : digits ≠ []) (digit : ∀ c ∈ digits, c.isDigit = true)
include nonempty digit

theorem isNumber_scientific (negative : Bool) (exponent : Int) :
    isNumber (signChars negative ++ Seconds.scientific digits exponent) = true := by
  obtain ⟨first, others, rfl⟩ := List.exists_cons_of_ne_nil nonempty
  have whole : isWhole [first] = true := isWhole_cons (digit first List.mem_cons_self) (by simp)
    (.inr rfl)
  have exponential : isExponent
      ('e' :: (if exponent < 0 then '-' else '+') :: digitChars exponent.natAbs) = true := by
    split <;> exact isDigits_digitChars _
  have fraction : isFraction (if others = [] then [] else '.' :: others) = true := by
    split
    next => rfl
    next more => exact isDigits_of more fun c among => digit c (List.mem_cons_of_mem _ among)
  have number := isNumber_append negative whole fraction exponential (by simp)
  rw [Seconds.scientific]
  convert number using 2
  cases others <;> simp

theorem isNumber_positional (negative : Bool) {whole : Int}
    (leads : digits.head? ≠ some '0' ∨ whole ≤ 1) :
    isNumber (signChars negative ++ Seconds.positional digits whole) = true := by
  unfold Seconds.positional
  split
  next below =>
    have fraction : isFraction ('.' :: (List.replicate whole.natAbs '0' ++ digits)) = true := by
      apply isDigits_of (by simp [nonempty])
      intro c among
      rcases List.mem_append.mp among with zero | own
      · rw [List.eq_of_mem_replicate zero]
        rfl
      · exact digit c own
    have number := isNumber_append negative isWhole_zero fraction isExponent_nil (by simp)
    simpa using number
  next above =>
    -- the digits are filled up with zeros, so that at least one is left behind the point
    generalize zeros : List.replicate (whole.toNat + 1 - digits.length) '0' = filling
    have long : whole.toNat < (digits ++ filling).length := by
      rw [List.length_append, ← zeros, List.length_replicate]
      omega
    have all : ∀ c ∈ digits ++ filling, c.isDigit = true := by
      intro c among
      rcases List.mem_append.mp among with own | zero
      · exact digit c own
      · rw [← zeros] at zero
        rw [List.eq_of_mem_replicate zero]
        rfl
    have fraction : isFraction ('.' :: (digits ++ filling).drop whole.toNat) = true := by
      apply isDigits_of
      · simpa using long
      · exact fun c among => all c (List.mem_of_mem_drop among)
    have integral : isWhole ((digits ++ filling).take whole.toNat) = true := by
      obtain ⟨first, others, rfl⟩ := List.exists_cons_of_ne_nil nonempty
      obtain ⟨more, same⟩ : ∃ more, whole.toNat = more + 1 := ⟨whole.toNat - 1, by omega⟩
      rw [same, List.cons_append, List.take_succ_cons]
      refine isWhole_cons (all first (by simp)) ?_ ?_
      · intro c among
        exact all c (List.mem_cons_of_mem _ (List.mem_of_mem_take among))
      · rcases leads with other | single
        · exact .inl fun zero => other (congrArg some zero)
        · have none : more = 0 := by omega
          exact .inr (by rw [none, List.take_zero])
    have number := isNumber_append negative integral fraction isExponent_nil (by simp)
    simpa using number

end

theorem isNumber_shortestChars {s : Seconds} (finite : s.isFinite = true) :
    isNumber s.shortestChars = true := by
  unfold Seconds.shortestChars
  split
  next zero =>
    have fraction : isFraction ['.', '0'] = true := rfl
    have number := isNumber_append s.isNegative isWhole_zero fraction isExponent_nil (by simp)
    simpa using number
  next other =>
    have positive := Seconds.shortest_pos (Nat.pos_of_ne_zero other) (of_decide_eq_true finite)
    have some := Seconds.digitChars_ne_nil (Seconds.shortest s.magnitude).digits
    have digit : ∀ c ∈ digitChars (Seconds.shortest s.magnitude).digits, c.isDigit = true :=
      fun c => Seconds.isDigit_of_mem_digitChars
    simp only
    split
    next small =>
      obtain ⟨first, others, same, nonzero⟩ := Seconds.exists_digitChars positive
      apply isNumber_positional some digit
      rw [same]
      exact .inl fun zero => nonzero (Option.some.inj zero)
    next large => exact isNumber_scientific some digit s.isNegative _

end Json

end ProfileTrace
