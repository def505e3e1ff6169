import Mathlib.Data.Nat.Digits.Defs
import ProfileTrace.Proofs.Cursor.Plain
import ProfileTrace.Proofs.Record.Reads

/-! Integers in front of any text. A text is taken apart in just one way into spaces, a sign, the
mark of a hexadecimal literal, its digits and the rest, where each goes on as far as it can. All
but the rest is taken, and the number is the one that the digits stand for, or absent. -/

namespace ProfileTrace
open Cursor Text
open TextCursor (digitsValue)

/-- A text taken apart at the integer in front of it. -/
structure Numeral where
  blanks : List UInt8
  sign : List UInt8
  mark : List UInt8
  digits : List UInt8
  rest : List UInt8

namespace Numeral

def unsigned (n : Numeral) : List UInt8 := n.mark ++ (n.digits ++ n.rest)

def signed (n : Numeral) : List UInt8 := n.sign ++ n.unsigned

def text (n : Numeral) : List UInt8 := n.blanks ++ n.signed

def length (n : Numeral) : Nat :=
  n.blanks.length + (n.sign.length + (n.mark.length + n.digits.length))

def radix (n : Numeral) : Nat := if n.mark = [] then 10 else 16

def magnitude (n : Numeral) : Nat :=
  Nat.ofDigits n.radix (n.digits.map fun b => (digitValue? n.radix b).getD 0).reverse

def value (n : Numeral) : Int := if n.sign = [] then n.magnitude else -n.magnitude

/-- The text begins with the integer, and no part of it goes on in what follows the part. -/
structure Opens (n : Numeral) (text : List UInt8) : Prop where
  whole : n.text = text
  blanks : ∀ b ∈ n.blanks, isSpaceByte b = true
  unblank : EndsRun isSpaceByte n.signed
  sign : n.sign = [0x2D] ∨ n.sign = [] ∧ n.unsigned.head? ≠ some 0x2D
  mark : (n.mark = [0x30, 0x78] ∨ n.mark = [0x30, 0x58]) ∧ n.digits ≠ [] ∨
    n.mark = [] ∧ beginsHex n.unsigned = false
  digits : ∀ b ∈ n.digits, (digitValue? n.radix b).isSome = true
  ended : EndsRun (fun b => (digitValue? n.radix b).isSome) n.rest

/-- What is read for an integer: nothing without digits, and nothing past 63 bits. -/
structure ReadsAs (n : Numeral) (value : Int) : Prop where
  none : n.digits = [] → value = -1
  fits : n.digits ≠ [] → n.magnitude ≤ 2 ^ 63 - 1 → value = n.value
  tooLarge : 2 ^ 63 - 1 < n.magnitude → value = -1

/-! ### Taking a text apart -/

theorem digitsValue_eq (radix : Nat) (digits : List UInt8) :
    digitsValue radix 0 digits =
      Nat.ofDigits radix (digits.map fun b => (digitValue? radix b).getD 0).reverse := by
  rw [Nat.ofDigits_eq_foldr, List.foldr_reverse, List.foldl_map, digitsValue]
  congr 1
  funext value b
  simp only [Nat.cast_id]
  rw [Nat.mul_comm, Nat.add_comm]

variable {n m : Numeral} {text : List UInt8}

theorem radix_of_mark (marked : n.mark = [0x30, 0x78] ∨ n.mark = [0x30, 0x58]) : n.radix = 16 := by
  rw [radix, if_neg]
  rcases marked with same | same <;> simp [same]

theorem beginsHex_of_mark {mark digits : List UInt8}
    (marked : mark = [0x30, 0x78] ∨ mark = [0x30, 0x58]) (nonempty : digits ≠ [])
    (all : ∀ b ∈ digits, (digitValue? 16 b).isSome = true) (rest : List UInt8) :
    beginsHex (mark ++ (digits ++ rest)) = true := by
  obtain ⟨d, others, rfl⟩ := List.exists_cons_of_ne_nil nonempty
  have digit : isHexDigit d = true := all d List.mem_cons_self
  rcases marked with rfl | rfl <;> simp [beginsHex, digit]

theorem length_mark (marked : n.mark = [0x30, 0x78] ∨ n.mark = [0x30, 0x58]) :
    n.mark.length = 2 := by
  rcases marked with same | same <;> rw [same] <;> rfl

namespace Opens

theorem literalOf_eq (opens : n.Opens text) :
    literalOf n.unsigned = (n.magnitude, n.mark.length + n.digits.length) := by
  have run := opens.ended.takeWhile_append opens.digits
  rcases opens.mark with ⟨marked, some⟩ | ⟨unmarked, noHex⟩
  · have radix := radix_of_mark marked
    have hex := beginsHex_of_mark marked some (radix ▸ opens.digits) n.rest
    have two := length_mark marked
    rw [radix] at run
    rw [literalOf, unsigned, hex, magnitude, radix]
    simp only [if_true, ← two, List.drop_left, run, digitsValue_eq]
  · have radix : n.radix = 10 := if_pos unmarked
    rw [radix] at run
    rw [literalOf, noHex, magnitude, radix, unsigned, unmarked]
    simp only [Bool.false_eq_true, if_false, List.nil_append, List.drop_zero, run, digitsValue_eq,
      List.length_nil]

theorem any_head?_unsigned (opens : n.Opens text) :
    n.unsigned.head?.any isDigitByte = !n.digits.isEmpty := by
  rcases opens.mark with ⟨marked, some⟩ | ⟨unmarked, -⟩
  · have digit : isDigitByte 0x30 = true := by decide
    rcases marked with same | same <;> simp [unsigned, same, digit, some]
  · have digits := opens.digits
    have ended := opens.ended
    simp only [radix, if_pos unmarked, isSome_digitValue?] at digits ended
    rw [unsigned, unmarked, List.nil_append]
    cases shape : n.digits with
    | cons d others =>
      have digit := digits d (by simp [shape])
      simp [digit]
    | nil =>
      cases first : n.rest.head? with
      | none => simp [first]
      | some b => simpa [first] using ended b first

end Opens

def reading (n : Numeral) : Int :=
  if n.digits ≠ [] ∧ n.magnitude < 0x8000000000000000 then n.value else absent

theorem readsAs_reading (n : Numeral) : n.ReadsAs n.reading where
  none empty := if_neg fun both => both.1 empty
  fits some small := if_pos ⟨some, by omega⟩
  tooLarge large := if_neg fun both => by omega

theorem Opens.unsignedOf_eq (opens : n.Opens text) :
    unsignedOf n.unsigned =
      (if n.digits ≠ [] ∧ n.magnitude < 0x8000000000000000 then some n.magnitude else none,
        n.mark.length + n.digits.length) := by
  rw [unsignedOf, opens.any_head?_unsigned, opens.literalOf_eq]
  cases shape : n.digits with
  | cons d others => simp
  | nil =>
    rcases opens.mark with ⟨-, some⟩ | ⟨unmarked, -⟩
    · exact absurd shape some
    · simp [unmarked]

theorem Opens.signedOf_eq (opens : n.Opens text) :
    signedOf n.signed = (n.reading, n.sign.length + (n.mark.length + n.digits.length)) := by
  have literal := opens.unsignedOf_eq
  rw [signedOf, signed, reading, value]
  rcases opens.sign with sign | ⟨unsigned, noSign⟩
  · simp only [sign, List.singleton_append, List.head?_cons, if_true, List.tail_cons, literal]
    split <;> simp
  · simp only [unsigned, List.nil_append, noSign, if_false, literal]
    split <;> simp

theorem Opens.integerOf_eq (opens : n.Opens text) : integerOf text = (n.reading, n.length) := by
  have run := opens.unblank.takeWhile_append opens.blanks
  rw [← opens.whole, Numeral.text, integerOf, run]
  simp only [List.drop_left, opens.signedOf_eq, length]

/-! ### There is just one way -/

namespace Opens

theorem blanks_eq (opens : n.Opens text) : n.blanks = text.takeWhile isSpaceByte := by
  rw [← opens.whole, Numeral.text, opens.unblank.takeWhile_append opens.blanks]

theorem sign_eq (opens : n.Opens text) :
    n.sign = if n.signed.head? = some 0x2D then [0x2D] else [] := by
  rcases opens.sign with sign | ⟨unsigned, noSign⟩
  · rw [signed, sign, List.singleton_append, List.head?_cons, if_pos rfl]
  · rw [signed, unsigned, List.nil_append, if_neg noSign]

theorem mark_eq (opens : n.Opens text) :
    n.mark = if beginsHex n.unsigned then n.unsigned.take 2 else [] := by
  rcases opens.mark with ⟨marked, some⟩ | ⟨unmarked, noHex⟩
  · have hex := beginsHex_of_mark marked some (radix_of_mark marked ▸ opens.digits) n.rest
    rw [← unsigned] at hex
    rw [hex, if_pos rfl, unsigned, ← length_mark marked, List.take_left]
  · rw [noHex, if_neg Bool.false_ne_true, unmarked]

theorem digits_eq (opens : n.Opens text) :
    n.digits = (n.digits ++ n.rest).takeWhile fun b => (digitValue? n.radix b).isSome :=
  (opens.ended.takeWhile_append opens.digits).symm

theorem eq (one : n.Opens text) (two : m.Opens text) : n = m := by
  have same := one.whole.trans two.whole.symm
  have blanks : n.blanks = m.blanks := one.blanks_eq.trans two.blanks_eq.symm
  rw [Numeral.text, Numeral.text, blanks, List.append_cancel_left_eq] at same
  have sign : n.sign = m.sign := by rw [one.sign_eq, two.sign_eq, same]
  rw [signed, signed, sign, List.append_cancel_left_eq] at same
  have mark : n.mark = m.mark := by rw [one.mark_eq, two.mark_eq, same]
  rw [unsigned, unsigned, mark, List.append_cancel_left_eq] at same
  have radix : n.radix = m.radix := by rw [radix, radix, mark]
  have digits : n.digits = m.digits := by rw [one.digits_eq, two.digits_eq, same, radix]
  rw [digits, List.append_cancel_left_eq] at same
  cases n
  cases m
  simp only at blanks sign mark digits same
  rw [blanks, sign, mark, digits, same]

end Opens

theorem exists_sign (text : List UInt8) :
    ∃ sign rest, text = sign ++ rest ∧
      (sign = [0x2D] ∨ sign = [] ∧ rest.head? ≠ some 0x2D) := by
  by_cases sign : text.head? = some 0x2D
  · exact ⟨[0x2D], text.tail, List.eq_cons_of_mem_head? sign, Or.inl rfl⟩
  · exact ⟨[], text, rfl, Or.inr ⟨rfl, sign⟩⟩

theorem exists_mark (text : List UInt8) :
    ∃ mark rest, text = mark ++ rest ∧
      ((mark = [0x30, 0x78] ∨ mark = [0x30, 0x58]) ∧ rest.head?.any isHexDigit = true ∨
        mark = [] ∧ beginsHex text = false) := by
  cases hex : beginsHex text with
  | false => exact ⟨[], text, rfl, Or.inr ⟨rfl, rfl⟩⟩
  | true =>
    match text with
    | [] | [_] | [_, _] => simp [beginsHex] at hex
    | zero :: mark :: digit :: rest =>
      simp only [beginsHex, Bool.and_eq_true, Bool.or_eq_true, beq_iff_eq] at hex
      obtain ⟨⟨rfl, marked⟩, digit⟩ := hex
      refine ⟨[0x30, mark], _ :: rest, rfl, Or.inl ⟨?_, digit⟩⟩
      rcases marked with rfl | rfl
      · exact Or.inl rfl
      · exact Or.inr rfl

theorem exists_opens (text : List UInt8) : ∃ n : Numeral, n.Opens text := by
  obtain ⟨blanks, signed, rfl, blank, unblank⟩ := exists_run isSpaceByte text
  obtain ⟨sign, unsigned, rfl, noSign⟩ := exists_sign signed
  obtain ⟨mark, bare, rfl, marked⟩ := exists_mark unsigned
  obtain ⟨digits, rest, rfl, all, ended⟩ :=
    exists_run (fun b => (digitValue? (if mark = [] then 10 else 16) b).isSome) bare
  refine ⟨⟨blanks, sign, mark, digits, rest⟩, rfl, blank, unblank, noSign, ?_, all, ended⟩
  rcases marked with ⟨marked, digit⟩ | unmarked
  · refine Or.inl ⟨marked, ?_⟩
    have radix : (if mark = [] then 10 else 16) = 16 :=
      radix_of_mark (n := ⟨blanks, sign, mark, digits, rest⟩) marked
    rintro rfl
    cases rest with
    | nil => simp at digit
    | cons b rest =>
      have none : (digitValue? _ b).isSome = false := ended b rfl
      rw [radix] at none
      simp [isHexDigit, none] at digit
  · exact Or.inr unmarked

/-! ### Numbers as they are written -/

def written (i : Int) (rest : List UInt8) : Numeral where
  blanks := []
  sign := if i < 0 then [0x2D] else []
  mark := []
  digits := decimal i.natAbs
  rest := rest

theorem text_written (i : Int) (rest : List UInt8) :
    (written i rest).text = toBytes (toString i) ++ rest := by
  cases i with
  | ofNat k => rfl
  | negSucc k =>
    have digits : toBytes (toString (Int.negSucc k)) = 0x2D :: decimal (k + 1) :=
      toBytes_append "-" (toString (k + 1))
    rw [digits]
    simp only [text, signed, unsigned, written, Int.negSucc_lt_zero, if_true, Int.natAbs_negSucc]
    rfl

theorem length_written (i : Int) (rest : List UInt8) :
    (written i rest).length = (toBytes (toString i)).length := by
  have sizes := congrArg List.length (text_written i rest)
  simp only [text, signed, unsigned, List.length_append] at sizes
  simp only [length]
  change _ + (_ + (_ + (_ + rest.length))) = _ at sizes
  omega

theorem magnitude_written (i : Int) (rest : List UInt8) :
    (written i rest).magnitude = i.natAbs :=
  (digitsValue_eq 10 (decimal i.natAbs)).symm.trans (digitsValue_decimal i.natAbs)

theorem reading_written {i : Int} (low : -2 ^ 63 < i) (high : i < 2 ^ 63) (rest : List UInt8) :
    (written i rest).reading = i := by
  have some : (written i rest).digits ≠ [] := decimal_ne_nil i.natAbs
  have small : (written i rest).magnitude < 0x8000000000000000 := by
    rw [magnitude_written]
    omega
  rw [reading, if_pos ⟨some, small⟩, value, magnitude_written]
  by_cases negative : i < 0
  · have sign : (written i rest).sign ≠ [] := by simp [written, negative]
    rw [if_neg sign]
    omega
  · have sign : (written i rest).sign = [] := if_neg negative
    rw [if_pos sign]
    omega

theorem opens_of_digits {sign digits rest : List UInt8} (signed : sign = [0x2D] ∨ sign = [])
    (all : ∀ b ∈ digits, isDigitByte b = true) (ends : EndsRun continuesNumber rest)
    (bare : digits = [] → EndsRun (· != 0x0A) rest) :
    (⟨[], sign, [], digits, rest⟩ : Numeral).Opens (sign ++ (digits ++ rest)) := by
  have first : ∀ b, (digits ++ rest).head? = some b → isDigitByte b = true ∨ b = 0x0A := by
    intro b here
    cases digits with
    | nil => exact Or.inr (by simpa using bare rfl b here)
    | cons d digits =>
      obtain rfl := Option.some.inj here
      exact Or.inl (all d List.mem_cons_self)
  constructor
  case whole => rfl
  case blanks => simp
  case unblank =>
    rcases signed with rfl | rfl
    · exact .of_head (by decide) _
    · intro b here
      rcases first b here with digit | rfl
      · exact isSpaceByte_of_isDigitByte digit
      · decide
  case sign =>
    refine signed.imp id fun none => ⟨none, fun here => ?_⟩
    rcases first _ here with digit | same
    · exact absurd digit (by decide)
    · exact absurd same (by decide)
  case mark =>
    have noHex : beginsHex (digits ++ rest) = false := by
      by_cases none : digits = []
      · subst none
        match rest with
        | [] | [_] | [_, _] => rfl
        | b :: _ :: _ :: _ =>
          obtain rfl : b = 0x0A := by simpa using bare rfl b rfl
          rfl
      · exact not_beginsHex_digits all none ends
    exact Or.inr ⟨rfl, noHex⟩
  case digits => exact fun b inside => (isSome_digitValue? b).trans (all b inside)
  case ended => exact fun b here => (isSome_digitValue? b).trans (ends.noDigit b here)

theorem sign_written (i : Int) (rest : List UInt8) :
    (written i rest).sign = [0x2D] ∨ (written i rest).sign = [] := by
  by_cases negative : i < 0
  · exact Or.inl (if_pos negative)
  · exact Or.inr (if_neg negative)

theorem opens_written (i : Int) {rest : List UInt8} (ends : EndsRun continuesNumber rest) :
    (written i rest).Opens (toBytes (toString i) ++ rest) := by
  rw [← text_written]
  exact opens_of_digits (sign_written i rest) (fun b => isDigitByte_of_mem_decimal) ends
    fun none => absurd none (decimal_ne_nil i.natAbs)

theorem exists_digits {i : Int} {piece : List UInt8} (cut : piece <+: toBytes (toString i)) :
    ∃ sign digits, piece = sign ++ digits ∧ (sign = [0x2D] ∨ sign = []) ∧
      ∀ b ∈ digits, isDigitByte b = true := by
  have text := text_written i []
  simp only [Numeral.text, signed, unsigned, written, List.nil_append, List.append_nil] at text
  rw [← text] at cut
  have digits : ∀ {piece : List UInt8}, piece <+: decimal i.natAbs →
      ∀ b ∈ piece, isDigitByte b = true :=
    fun cut b inside => isDigitByte_of_mem_decimal (cut.subset inside)
  by_cases negative : i < 0
  · rw [if_pos negative, List.singleton_append, List.prefix_cons_iff] at cut
    rcases cut with rfl | ⟨piece, rfl, cut⟩
    · exact ⟨[], [], rfl, Or.inr rfl, by simp⟩
    · exact ⟨[0x2D], piece, rfl, Or.inl rfl, digits cut⟩
  · rw [if_neg negative, List.nil_append] at cut
    exact ⟨[], piece, rfl, Or.inr rfl, digits cut⟩

end Numeral

namespace StreamCursor

variable {content : List UInt8} {c : StreamCursor}

/-- From any text just the integer in front of it is read, with all of its digits, and the number is
the one that they stand for or absent. An integer as it is written is read back. -/
theorem readInt_of_any_text (settled : Settled content c) (noDigit : isHexDigit c.sentinel = false) :
    (∃ n : Numeral, n.Opens (content.drop c.position) ∧
      (∀ other : Numeral, other.Opens (content.drop c.position) → other = n) ∧
      n.ReadsAs (readInt c).1 ∧ Settled content (readInt c).2 ∧
      (readInt c).2.position = c.position + n.length) ∧
    (∀ (i : Int) (rest : List UInt8), -2 ^ 63 < i → i < 2 ^ 63 → EndsRun continuesNumber rest →
      content.drop c.position = toBytes (toString i) ++ rest →
      (readInt c).1 = i ∧ content.drop (readInt c).2.position = rest) ∧
    readInt32 c =
      (if -2 ^ 31 ≤ (readInt c).1 ∧ (readInt c).1 < 2 ^ 31 then (readInt c).1 else -1,
        (readInt c).2) := by
  obtain ⟨answer, after, moved⟩ := settled.performed
    (Simulation.respects_readInt _) (readInt_eq (c := c.overText content) noDigit)
  have read : ∀ {n : Numeral}, n.Opens (content.drop c.position) →
      (readInt c).1 = n.reading ∧ (readInt c).2.position = c.position + n.length := by
    intro n opens
    have found : integerOf (c.overText content).rest = (n.reading, n.length) := opens.integerOf_eq
    rw [found] at answer moved
    exact ⟨answer, congrArg PlainCursor.position moved⟩
  refine ⟨?_, fun i rest low high ends text => ?_, rfl⟩
  · obtain ⟨n, opens⟩ := Numeral.exists_opens (content.drop c.position)
    obtain ⟨value, place⟩ := read opens
    exact ⟨n, opens, fun other same => same.eq opens, value ▸ n.readsAs_reading, after, place⟩
  · obtain ⟨value, place⟩ := read (text ▸ Numeral.opens_written i ends)
    refine ⟨value.trans (Numeral.reading_written low high rest), ?_⟩
    rw [place, ← List.drop_drop, text, Numeral.length_written, List.drop_left]

/-- A negative hexadecimal number, of a source that is interrupted before each byte. -/
def slowNumber : Reader := .slow [0x61, 0x09, 0x2D, 0x30, 0x58, 0x31, 0x46, 0x66, 0x2F] 1

theorem readInt_of_any_text_slowNumber :
    Settled slowNumber.content (ofReader slowNumber 0 0x2D) ∧ isHexDigit 0x2D = false ∧
      (readInt (ofReader slowNumber 0 0x2D)).1 = -0x1FF ∧
      (readInt (ofReader slowNumber 0 0x2D)).2.position = 8 := by
  have calm : slowNumber.Faultless := Reader.faultless_slow _ _
  have settled := settled_ofReader calm rfl 0 0x2D
  have noDigit : isHexDigit 0x2D = false := by decide
  have sentinel := sentinel_ofReader slowNumber 0 0x2D
  have start := position_ofReader calm 0 0x2D
  obtain ⟨⟨n, -, only, value, -, place⟩, -, -⟩ :=
    readInt_of_any_text settled (sentinel.symm ▸ noDigit)
  have opens : Numeral.Opens ⟨[0x09], [0x2D], [0x30, 0x58], [0x31, 0x46, 0x66], [0x2F]⟩
      (slowNumber.content.drop (ofReader slowNumber 0 0x2D).position) := by
    rw [start]
    exact ⟨rfl, by decide, .of_head (by decide) _, Or.inl rfl,
      Or.inl ⟨Or.inr rfl, List.cons_ne_nil _ _⟩, by decide, .of_head (by decide) _⟩
  obtain rfl := only _ opens
  refine ⟨settled, noDigit, value.fits (List.cons_ne_nil _ _) (by decide), ?_⟩
  rw [place, start]
  rfl

end StreamCursor

end ProfileTrace
