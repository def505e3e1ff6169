import Mathlib.Data.List.TakeWhile
import ProfileTrace.Proofs.Record.Scan
import ProfileTrace.Proofs.Text.Written
import ProfileTrace.Record.Header

/-! What a reader finds in a text, whatever follows it. Each column of a header is read back from
the bytes it is printed as, as long as what follows does not go on with the column. -/

namespace ProfileTrace
open Cursor Text
open TextCursor (beforeLast_append digitsValue readUntil_eq readUntilLastOnLine_eq rest_skipWhile
  skipWhile_eq)

variable {α β : Type}

/-- Reading finds the value in a text, and leaves the rest of it. -/
def Reads (read : TextCursor → α × TextCursor) (text rest : List UInt8) (value : α) : Prop :=
  ∀ position, ∃ after, read ⟨text, position, 0⟩ = (value, ⟨rest, after, 0⟩)

namespace Reads

theorem map {read : TextCursor → α × TextCursor} {text rest : List UInt8} {value : α}
    (first : Reads read text rest value) (f : α → β) :
    Reads (fun c => (f (read c).1, (read c).2)) text rest (f value) := by
  intro position
  obtain ⟨after, found⟩ := first position
  exact ⟨after, by simp only [found]⟩

theorem of_skip {read : TextCursor → α × TextCursor} {text rest : List UInt8} {value : α}
    (found : ∀ c : TextCursor, c.rest = text ++ rest → c.sentinel = 0 →
      read c = (value, c.skip text.length)) : Reads read (text ++ rest) rest value := by
  intro position
  refine ⟨position + text.length, ?_⟩
  rw [found ⟨text ++ rest, position, 0⟩ rfl rfl, TextCursor.skip, List.drop_left]

end Reads

/-! ### Runs of bytes -/

def EndsRun (test : UInt8 → Bool) (rest : List UInt8) : Prop :=
  ∀ b, rest.head? = some b → test b = false

theorem EndsRun.of_head {test : UInt8 → Bool} {b : UInt8} (ends : test b = false)
    (rest : List UInt8) : EndsRun test (b :: rest) := by
  rintro d ⟨⟩
  exact ends

theorem endsRun_dropWhile (test : UInt8 → Bool) (text : List UInt8) :
    EndsRun test (text.dropWhile test) := by
  intro b first
  simpa [first] using List.head?_dropWhile_not test text

theorem exists_run (test : UInt8 → Bool) (text : List UInt8) :
    ∃ run rest, text = run ++ rest ∧ (∀ b ∈ run, test b = true) ∧ EndsRun test rest :=
  ⟨text.takeWhile test, text.dropWhile test, List.takeWhile_append_dropWhile.symm,
    fun _ inside => List.mem_takeWhile_imp inside, endsRun_dropWhile test text⟩

theorem EndsRun.takeWhile_append {test : UInt8 → Bool} {rest : List UInt8}
    (ends : EndsRun test rest) {text : List UInt8} (all : ∀ b ∈ text, test b = true) :
    (text ++ rest).takeWhile test = text := by
  rw [List.takeWhile_append_of_pos all]
  cases rest with
  | nil => exact List.append_nil text
  | cons b rest =>
    rw [List.takeWhile_cons_of_neg (by simp [ends b rfl]), List.append_nil]

theorem EndsRun.dropWhile_append {test : UInt8 → Bool} {rest : List UInt8}
    (ends : EndsRun test rest) {text : List UInt8} (all : ∀ b ∈ text, test b = true) :
    (text ++ rest).dropWhile test = rest := by
  rw [← TextCursor.drop_length_takeWhile, ends.takeWhile_append all, List.drop_left]

namespace TextCursor

theorem rest_skip_of_append {c : TextCursor} {run rest : List UInt8} (ahead : c.rest = run ++ rest) :
    (c.skip run.length).rest = rest := by
  rw [rest_skip, ahead, List.drop_left]

theorem current_of_rest {c : TextCursor} {b : UInt8} {rest : List UInt8} (ahead : c.rest = b :: rest) :
    Cursor.current c = b ∧ Cursor.atEnd c = false := by
  cases c
  subst ahead
  exact ⟨rfl, rfl⟩

end TextCursor

theorem skipSpaces_eq_of_run {c : TextCursor} {blanks rest : List UInt8}
    (ahead : c.rest = blanks ++ rest) (all : ∀ b ∈ blanks, isSpaceByte b = true)
    (ends : EndsRun isSpaceByte rest) : skipSpaces c = c.skip blanks.length := by
  rw [skipSpaces, skipWhile_eq, ahead, ends.takeWhile_append all]

theorem readUntil_eq_of_run {stop : UInt8 → Bool} {c : TextCursor} {run rest : List UInt8}
    (ahead : c.rest = run ++ rest) (all : ∀ b ∈ run, stop b = false)
    (ends : EndsRun (!stop ·) rest) : readUntil stop c = (run, c.skip run.length) := by
  have passed : ∀ b ∈ run, (!stop b) = true := fun b inside => by rw [all b inside, Bool.not_false]
  rw [readUntil_eq, ahead, ends.takeWhile_append passed]

theorem readUntilLastOnLine_eq_of_line {target : UInt8} {c : TextCursor}
    {before after rest : List UInt8} (ahead : c.rest = before ++ target :: after ++ rest)
    (last : target ∉ after) (noFeed : 0x0A ∉ before ++ target :: after)
    (ends : EndsRun (· != 0x0A) rest) :
    readUntilLastOnLine target c = (before, c.skip before.length) := by
  have passed : ∀ b ∈ before ++ target :: after, (b != 0x0A) = true := by
    intro b inside
    have other : b ≠ 0x0A := fun same => noFeed (same ▸ inside)
    simpa using other
  rw [readUntilLastOnLine_eq, TextCursor.line, ahead, ends.takeWhile_append passed,
    beforeLast_append before last]

theorem skipSpaces_of_endsRun {c : TextCursor} (ends : EndsRun isSpaceByte c.rest) :
    skipSpaces c = c :=
  skipSpaces_eq_of_run (List.nil_append c.rest).symm (fun _ none => absurd none List.not_mem_nil)
    ends

theorem Reads.after_spaces {read : TextCursor → α × TextCursor} {text rest : List UInt8} {value : α}
    (found : Reads read text rest value) (blanks : List UInt8)
    (all : ∀ b ∈ blanks, isSpaceByte b = true) (ends : EndsRun isSpaceByte text) :
    Reads (fun c => read (skipSpaces c)) (blanks ++ text) rest value := by
  intro position
  have space : skipSpaces (⟨blanks ++ text, position, 0⟩ : TextCursor) =
      ⟨text, position + blanks.length, 0⟩ := by
    rw [skipSpaces_eq_of_run rfl all ends, TextCursor.skip, List.drop_left]
  simp only [space]
  exact found (position + blanks.length)

theorem Reads.after_space {read : TextCursor → α × TextCursor} {text rest : List UInt8} {value : α}
    (found : Reads read text rest value) (ends : EndsRun isSpaceByte text) :
    Reads (fun c => read (skipSpaces c)) (0x20 :: text) rest value :=
  found.after_spaces [0x20] (by simp [isSpaceByte]) ends

theorem reads_readUntil {stop : UInt8 → Bool} {text rest : List UInt8}
    (all : ∀ b ∈ text, stop b = false) (ends : EndsRun (!stop ·) rest) :
    Reads (readUntil stop) (text ++ rest) rest text :=
  .of_skip fun _ ahead _ => readUntil_eq_of_run ahead all ends

/-! ### Numbers -/

theorem isSpaceByte_of_isDigitByte {b : UInt8} (digit : isDigitByte b = true) :
    isSpaceByte b = false := by
  refine Bool.eq_false_iff.mpr fun space => ?_
  simp only [isSpaceByte, Bool.or_eq_true, beq_iff_eq] at space
  rcases space with rfl | rfl
  · exact absurd digit (by decide)
  · exact absurd digit (by decide)

theorem isSome_digitValue? (b : UInt8) : (digitValue? 10 b).isSome = isDigitByte b := by
  cases digit : isDigitByte b with
  | true => exact isSome_digitValue?_of_isDigitByte digit
  | false =>
    have outside : ¬(48 ≤ b.toNat ∧ b.toNat ≤ 57) := by
      simpa [isDigitByte, UInt8.le_iff_toNat_le] using digit
    have lower : ¬b.toNat - 97 + 10 < 10 := by omega
    have upper : ¬b.toNat - 65 + 10 < 10 := by omega
    simp only [digitValue?, Bool.and_eq_true, decide_eq_true_eq, outside, if_false]
    split
    · simp
    · split <;> simp

theorem mark_of_beginsHex {first second : UInt8} {rest : List UInt8}
    (hex : beginsHex (first :: second :: rest) = true) : second = 0x78 ∨ second = 0x58 := by
  cases rest with
  | nil => simp [beginsHex] at hex
  | cons third rest =>
    simp only [beginsHex, Bool.and_eq_true, Bool.or_eq_true, beq_iff_eq] at hex
    exact hex.1.2

/-- A byte that could go on with a number: a digit, or the mark of a hexadecimal literal. -/
def continuesNumber (b : UInt8) : Bool := isDigitByte b || b == 0x78 || b == 0x58

theorem not_beginsHex_digits {digits rest : List UInt8}
    (all : ∀ b ∈ digits, isDigitByte b = true) (nonempty : digits ≠ [])
    (ends : EndsRun continuesNumber rest) : beginsHex (digits ++ rest) = false := by
  have continues : ∀ b, b = 0x78 ∨ b = 0x58 → continuesNumber b = true := by
    rintro b (rfl | rfl)
    · decide
    · decide
  -- the mark of a hexadecimal literal is the second byte: a digit, or the first of the rest
  refine Bool.eq_false_iff.mpr fun hex => ?_
  match digits, nonempty with
  | [d], _ =>
    cases rest with
    | nil => simp [beginsHex] at hex
    | cons b rest =>
      have other := ends b rfl
      rw [continues b (mark_of_beginsHex hex)] at other
      cases other
  | d :: e :: digits, _ =>
    have digit := all e (by simp)
    rcases mark_of_beginsHex hex with rfl | rfl
    · exact absurd digit (by decide)
    · exact absurd digit (by decide)

theorem EndsRun.noDigit {rest : List UInt8} (ends : EndsRun continuesNumber rest) :
    EndsRun isDigitByte rest := by
  intro b first
  have other := ends b first
  simp only [continuesNumber, Bool.or_eq_false_iff] at other
  exact other.1.1

theorem literalOf_digits {digits rest : List UInt8} (all : ∀ b ∈ digits, isDigitByte b = true)
    (nonempty : digits ≠ []) (ends : EndsRun continuesNumber rest) :
    literalOf (digits ++ rest) = (digitsValue 10 0 digits, digits.length) := by
  have noHex := not_beginsHex_digits all nonempty ends
  have run : (digits ++ rest).takeWhile (fun b => (digitValue? 10 b).isSome) = digits := by
    simp only [isSome_digitValue?]
    exact ends.noDigit.takeWhile_append all
  simp only [literalOf, noHex, Bool.false_eq_true, if_false, List.drop_zero, run, Nat.zero_add]

theorem exists_decimal (n : Nat) : ∃ d digits, decimal n = d :: digits ∧ isDigitByte d = true := by
  obtain ⟨d, digits, shape⟩ := List.exists_cons_of_ne_nil (decimal_ne_nil n)
  exact ⟨d, digits, shape, isDigitByte_of_mem_decimal (n := n) (by simp [shape])⟩

theorem endsRun_decimal (n : Nat) (rest : List UInt8) :
    EndsRun isSpaceByte (decimal n ++ rest) := by
  obtain ⟨d, digits, shape, digit⟩ := exists_decimal n
  rw [shape]
  exact .of_head (isSpaceByte_of_isDigitByte digit) _

theorem integerOf_decimal {n : Nat} (small : n < 0x8000000000000000) {rest : List UInt8}
    (ends : EndsRun continuesNumber rest) :
    integerOf (decimal n ++ rest) = ((n : Int), (decimal n).length) := by
  have literal := literalOf_digits (fun _ => isDigitByte_of_mem_decimal) (decimal_ne_nil n) ends
  rw [digitsValue_decimal] at literal
  obtain ⟨d, digits, shape, digit⟩ := exists_decimal n
  have noSpace := isSpaceByte_of_isDigitByte digit
  have noSign : d ≠ 0x2D := by
    rintro rfl
    exact absurd digit (by decide)
  rw [shape, List.cons_append] at literal ⊢
  simp [integerOf, signedOf, unsignedOf, noSpace, noSign, digit, literal, small]

theorem reads_readInt {n : Nat} (small : n < 0x8000000000000000) {rest : List UInt8}
    (ends : EndsRun continuesNumber rest) : Reads readInt (decimal n ++ rest) rest (n : Int) := by
  apply Reads.of_skip
  intro c shape zero
  have noDigit : isHexDigit c.sentinel = false := by
    rw [zero]
    decide
  rw [readInt_eq noDigit, shape, integerOf_decimal small ends]

theorem reads_readInt32 {n : Nat} (small : n < 0x80000000) {rest : List UInt8}
    (ends : EndsRun continuesNumber rest) : Reads readInt32 (decimal n ++ rest) rest (n : Int) := by
  have number := (reads_readInt (Nat.lt_trans small (by decide)) ends).map fun value =>
    if -0x80000000 ≤ value ∧ value < 0x80000000 then value else absent
  rwa [if_pos (by omega)] at number

/-! ### Columns of a header -/

namespace Header

theorem takeTokens_skipSpaces (taken : List (List UInt8)) (c : TextCursor) :
    takeTokens taken (skipSpaces c) = takeTokens taken c := by
  have again : skipSpaces (skipSpaces c) = skipSpaces c := by
    apply skipSpaces_of_endsRun
    rw [skipSpaces, rest_skipWhile]
    exact endsRun_dropWhile isSpaceByte c.rest
  rw [takeTokens, takeTokens.eq_def taken c, again]

structure IsToken (word : List UInt8) : Prop where
  nonempty : word ≠ []
  solid : ∀ b ∈ word, isTokenEnd b = false
  noDigit : EndsRun isDigitByte word

theorem IsToken.endsRun {word : List UInt8} (token : IsToken word) (more : List UInt8) :
    EndsRun isSpaceByte (word ++ more) := by
  obtain ⟨d, others, shape⟩ := List.exists_cons_of_ne_nil token.nonempty
  have solid := token.solid d (by simp [shape])
  simp only [isTokenEnd, Bool.or_eq_false_iff] at solid
  rw [shape]
  exact .of_head solid.1 _

theorem reads_takeTokens_word {word more rest : List UInt8} (token : IsToken word)
    {taken tokens : List (List UInt8)}
    (found : Reads (takeTokens (word :: taken)) (0x20 :: more) rest tokens) :
    Reads (takeTokens taken) (word ++ 0x20 :: more) rest tokens := by
  intro position
  have start := skipSpaces_of_endsRun (c := ⟨word ++ 0x20 :: more, position, 0⟩) (token.endsRun _)
  have going : atCommandEnd (⟨word ++ 0x20 :: more, position, 0⟩ : TextCursor) = false := by
    obtain ⟨d, others, shape⟩ := List.exists_cons_of_ne_nil token.nonempty
    have solid := token.solid d (by simp [shape])
    have noDigit := token.noDigit d (by simp [shape])
    simp only [isTokenEnd, Bool.or_eq_false_iff] at solid
    simp [atCommandEnd, shape, solid, noDigit]
  have all : Reads (readUntil isTokenEnd) (word ++ 0x20 :: more) (0x20 :: more) word :=
    reads_readUntil token.solid (.of_head (by decide) more)
  obtain ⟨middle, first⟩ := all position
  obtain ⟨after, last⟩ := found middle
  refine ⟨after, ?_⟩
  rw [takeTokens, start, dif_neg (Bool.eq_false_iff.mp going)]
  simp only [first, last]

/-- The words of a command end where a digit begins the number after them. -/
theorem reads_takeTokens {words : List (List UInt8)} (all : ∀ word ∈ words, IsToken word)
    {b : UInt8} (digit : isDigitByte b = true) (rest : List UInt8) (taken : List (List UInt8)) :
    Reads (takeTokens taken) ([0x20].intercalate words ++ [0x20] ++ b :: rest) (b :: rest)
      (words.reverse ++ taken) := by
  induction words generalizing taken with
  | nil =>
    -- the space that is left before the number is skipped on the way to the next word
    have noSpace := isSpaceByte_of_isDigitByte digit
    have ended : Reads (takeTokens taken) (b :: rest) (b :: rest) taken := by
      intro position
      have start := skipSpaces_of_endsRun (c := ⟨b :: rest, position, 0⟩) (.of_head noSpace rest)
      have command : atCommandEnd (⟨b :: rest, position, 0⟩ : TextCursor) = true := by
        simp [atCommandEnd, digit]
      refine ⟨position, ?_⟩
      rw [takeTokens, start, dif_pos command]
    have spaced := ended.after_space (.of_head noSpace rest)
    simp only [takeTokens_skipSpaces] at spaced
    exact spaced
  | cons word words ih =>
    have others := ih (fun other among => all other (List.mem_cons_of_mem _ among)) (word :: taken)
    have token := all word List.mem_cons_self
    rw [List.reverse_cons, List.append_assoc _ [word], List.singleton_append]
    cases words with
    | nil =>
      rw [List.intercalate_singleton, List.append_assoc]
      exact reads_takeTokens_word token others
    | cons second words =>
      have ends : EndsRun isSpaceByte
          ([0x20].intercalate (second :: words) ++ [0x20] ++ b :: rest) := by
        obtain ⟨more, joined⟩ := exists_intercalate_append [0x20] second words
        rw [joined, List.append_assoc]
        exact (all second (by simp)).endsRun _
      have spaced := others.after_space ends
      simp only [takeTokens_skipSpaces] at spaced
      rw [List.intercalate_cons_cons]
      simp only [List.append_assoc] at spaced ⊢
      exact reads_takeTokens_word token spaced

theorem reads_readTid (pid : Int) {tid : Nat} (small : tid < 0x80000000) {rest : List UInt8}
    (ends : EndsRun continuesNumber rest) :
    Reads (readTid pid) (0x2F :: (decimal tid ++ rest)) rest (tid : Int) := by
  intro position
  obtain ⟨after, number⟩ := reads_readInt32 small ends (position + 1)
  exact ⟨after, number⟩

theorem reads_readCpu {cpu : Nat} (small : cpu < 0x80000000) (rest : List UInt8) :
    Reads readCpu (0x5B :: (decimal cpu ++ 0x5D :: rest)) rest (cpu : Int) := by
  intro position
  obtain ⟨after, number⟩ := reads_readInt32 small (.of_head (b := 0x5D) (by decide) rest)
    (position + 1)
  refine ⟨after + 1, ?_⟩
  simp only [readCpu, TextCursor.current_cons, TextCursor.advance_cons, number]
  rfl

theorem reads_readColumn {column : List UInt8} (all : ∀ b ∈ column, isColumnEnd b = false)
    (rest : List UInt8) :
    Reads readColumn (column ++ 0x3A :: rest) rest (trim (ofBytes column)) := by
  have bytes : Reads (readUntil isColumnEnd) (column ++ 0x3A :: rest) (0x3A :: rest) column :=
    reads_readUntil all (.of_head (by decide) rest)
  intro position
  obtain ⟨after, found⟩ := bytes position
  refine ⟨after + 1, ?_⟩
  simp only [readColumn, found]
  rfl

theorem reads_readProperty {n : Nat} (small : n < 0x8000000000000000) {rest : List UInt8}
    (ends : EndsRun continuesNumber rest) :
    Reads readProperty (decimal n ++ rest) rest (n : Int) := by
  intro position
  obtain ⟨after, number⟩ := reads_readInt small ends position
  obtain ⟨d, digits, shape, digit⟩ := exists_decimal n
  refine ⟨after, ?_⟩
  rw [← number, shape]
  exact if_pos digit

end Header

end ProfileTrace
