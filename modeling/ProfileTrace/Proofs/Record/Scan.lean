import ProfileTrace.Cursor.InMemory
import ProfileTrace.Cursor.Scan

/-! The scanning loops over a text in memory, each as one step over a run of its bytes. The
sentinel plays no part in any of them: where the text ends the run ends. -/

namespace ProfileTrace.TextCursor
open Cursor Text

def skip (count : Nat) (c : TextCursor) : TextCursor :=
  { c with rest := c.rest.drop count, position := c.position + count }

@[simp] theorem rest_skip (count : Nat) (c : TextCursor) :
    (c.skip count).rest = c.rest.drop count :=
  rfl

@[simp] theorem sentinel_skip (count : Nat) (c : TextCursor) :
    (c.skip count).sentinel = c.sentinel :=
  rfl

@[simp] theorem skip_zero (c : TextCursor) : c.skip 0 = c := rfl

@[simp] theorem advance_nil (position : Nat) (sentinel : UInt8) :
    Cursor.advance (⟨[], position, sentinel⟩ : TextCursor) = (false, ⟨[], position, sentinel⟩) :=
  rfl

@[simp] theorem advance_cons (b : UInt8) (rest : List UInt8) (position : Nat) (sentinel : UInt8) :
    Cursor.advance (⟨b :: rest, position, sentinel⟩ : TextCursor) =
      (!rest.isEmpty, ⟨rest, position + 1, sentinel⟩) :=
  rfl

@[simp] theorem current_nil (position : Nat) (sentinel : UInt8) :
    Cursor.current (⟨[], position, sentinel⟩ : TextCursor) = sentinel :=
  rfl

@[simp] theorem current_cons (b : UInt8) (rest : List UInt8) (position : Nat) (sentinel : UInt8) :
    Cursor.current (⟨b :: rest, position, sentinel⟩ : TextCursor) = b :=
  rfl

@[simp] theorem atEnd_mk (rest : List UInt8) (position : Nat) (sentinel : UInt8) :
    Cursor.atEnd (⟨rest, position, sentinel⟩ : TextCursor) = rest.isEmpty :=
  rfl

theorem skip_cons (b : UInt8) (rest : List UInt8) (position : Nat) (sentinel : UInt8)
    (count : Nat) :
    (⟨b :: rest, position, sentinel⟩ : TextCursor).skip (count + 1) =
      (⟨rest, position + 1, sentinel⟩ : TextCursor).skip count := by
  simp only [skip, List.drop_succ_cons]
  congr 1
  omega

theorem skip_skip (c : TextCursor) (first second : Nat) :
    (c.skip first).skip second = c.skip (first + second) := by
  simp only [skip, List.drop_drop, Nat.add_assoc]

theorem advance_skip {c : TextCursor} {count : Nat} (inside : count < c.rest.length) :
    (Cursor.advance (c.skip count)).2 = c.skip (count + 1) := by
  obtain ⟨rest, position, sentinel⟩ := c
  simp only [skip, List.drop_eq_getElem_cons inside, advance_cons, Nat.add_assoc]

theorem advance_eq (c : TextCursor) :
    Cursor.advance c = (decide (1 < c.rest.length), c.skip (min 1 c.rest.length)) := by
  obtain ⟨rest, position, sentinel⟩ := c
  match rest with
  | [] => rfl
  | [b] => rfl
  | b :: next :: rest => simp [skip]

theorem length_takeWhile_lt {test : UInt8 → Bool} {rest : List UInt8} {b : UInt8}
    (follows : (rest.dropWhile test).head? = some b) :
    (rest.takeWhile test).length < rest.length := by
  have parts := congrArg List.length (List.takeWhile_append_dropWhile (p := test) (l := rest))
  cases shape : rest.dropWhile test with
  | nil => simp [shape] at follows
  | cons b tail =>
    rw [shape, List.length_append, List.length_cons] at parts
    omega

theorem skipWhile_eq (test : UInt8 → Bool) (c : TextCursor) :
    skipWhile test c = c.skip (c.rest.takeWhile test).length := by
  obtain ⟨rest, position, sentinel⟩ := c
  induction rest generalizing position with
  | nil =>
    rw [skipWhile]
    split <;> rfl
  | cons b rest ih =>
    rw [skipWhile]
    cases passes : test b with
    | false => simp [passes]
    | true =>
      simp only [current_cons, passes, if_true, advance_cons, List.takeWhile_cons,
        List.length_cons, skip_cons]
      cases rest with
      | nil => rfl
      | cons next rest => exact ih (position + 1)

theorem drop_length_takeWhile (test : UInt8 → Bool) (rest : List UInt8) :
    rest.drop (rest.takeWhile test).length = rest.dropWhile test :=
  calc
    rest.drop (rest.takeWhile test).length
        = (rest.takeWhile test ++ rest.dropWhile test).drop (rest.takeWhile test).length := by
          rw [List.takeWhile_append_dropWhile]
    _ = rest.dropWhile test := List.drop_left

theorem rest_skipWhile (test : UInt8 → Bool) (c : TextCursor) :
    (skipWhile test c).rest = c.rest.dropWhile test := by
  rw [skipWhile_eq]
  exact drop_length_takeWhile test c.rest

theorem sentinel_skipWhile (test : UInt8 → Bool) (c : TextCursor) :
    (skipWhile test c).sentinel = c.sentinel := by
  rw [skipWhile_eq]
  rfl

theorem takeUntil_eq (stop : UInt8 → Bool) (taken : List UInt8) (c : TextCursor) :
    takeUntil stop taken c =
      ((c.rest.takeWhile (!stop ·)).reverse ++ taken,
        c.skip (c.rest.takeWhile (!stop ·)).length) := by
  obtain ⟨rest, position, sentinel⟩ := c
  induction rest generalizing position taken with
  | nil =>
    rw [takeUntil]
    rfl
  | cons b rest ih =>
    rw [takeUntil]
    cases stops : stop b with
    | true => simp [stops]
    | false =>
      simp only [atEnd_mk, List.isEmpty_cons, Bool.false_eq_true, dite_false, current_cons, stops,
        if_false, advance_cons, ih, List.takeWhile_cons, Bool.not_false, if_true,
        List.length_cons, skip_cons, List.reverse_cons, List.append_assoc, List.cons_append,
        List.nil_append]

theorem readUntil_eq (stop : UInt8 → Bool) (c : TextCursor) :
    readUntil stop c =
      (c.rest.takeWhile (!stop ·), c.skip (c.rest.takeWhile (!stop ·)).length) := by
  simp [readUntil, takeUntil_eq]

def passedOnLine (target b : UInt8) : Bool := b != target && b != 0x0A

theorem skipToOnLine_eq {target : UInt8} (c : TextCursor) :
    skipToOnLine target c =
      ((c.rest.dropWhile (passedOnLine target)).head? == some target,
        c.skip (c.rest.takeWhile (passedOnLine target)).length) := by
  obtain ⟨rest, position, sentinel⟩ := c
  induction rest generalizing position with
  | nil =>
    rw [skipToOnLine]
    simp
  | cons b rest ih =>
    rw [skipToOnLine]
    by_cases found : b = target
    · simp [found, passedOnLine]
    · by_cases feed : b = 0x0A
      · have other : ¬(0x0A : UInt8) = target := fun same => found (feed.trans same)
        simp [feed, passedOnLine, other]
      · have passed : passedOnLine target b = true := by simp [passedOnLine, found, feed]
        simp only [current_cons, atEnd_mk, List.isEmpty_cons, Bool.not_false, Bool.and_true,
          beq_iff_eq, found, if_false, feed, advance_cons, List.takeWhile_cons, passed, if_true,
          List.length_cons, skip_cons, List.dropWhile_cons]
        cases rest with
        | nil => rfl
        | cons next rest => exact ih (position + 1)

def digitsValue (radix value : Nat) (digits : List UInt8) : Nat :=
  digits.foldl (fun value b => value * radix + (digitValue? radix b).getD 0) value

theorem readDigits_eq (radix value : Nat) (c : TextCursor) :
    readDigits radix value c =
      (digitsValue radix value (c.rest.takeWhile fun b => (digitValue? radix b).isSome),
        c.skip (c.rest.takeWhile fun b => (digitValue? radix b).isSome).length) := by
  obtain ⟨rest, position, sentinel⟩ := c
  induction rest generalizing position value with
  | nil =>
    rw [readDigits]
    rfl
  | cons b rest ih =>
    rw [readDigits]
    cases digit : digitValue? radix b with
    | none => simp [digit, digitsValue]
    | some d =>
      simp only [atEnd_mk, List.isEmpty_cons, Bool.false_eq_true, dite_false, current_cons, digit,
        advance_cons, ih, List.takeWhile_cons, Option.isSome_some, if_true, List.length_cons,
        skip_cons, digitsValue, List.foldl_cons, Option.getD_some]

/-! ### The last of a byte on the line -/

/-- What stands before the last `target`, or nothing when there is none. -/
def beforeLast (target : UInt8) : List UInt8 → List UInt8
  | [] => []
  | b :: line => if target ∈ line then b :: beforeLast target line else []

theorem beforeLast_of_not_mem {target : UInt8} {line : List UInt8} (none : target ∉ line) :
    beforeLast target line = [] := by
  cases line with
  | nil => rfl
  | cons b line => exact if_neg fun later => none (List.mem_cons_of_mem b later)

theorem beforeLast_append {target : UInt8} (before : List UInt8) {after : List UInt8}
    (last : target ∉ after) : beforeLast target (before ++ target :: after) = before := by
  induction before with
  | nil => exact if_neg last
  | cons b before ih =>
    rw [List.cons_append, beforeLast, if_pos (by simp), ih]

theorem length_beforeLast_le (target : UInt8) (line : List UInt8) :
    (beforeLast target line).length ≤ line.length := by
  induction line with
  | nil => exact Nat.le_refl 0
  | cons b line ih =>
    rw [beforeLast]
    split
    · exact Nat.succ_le_succ ih
    · exact Nat.zero_le _

def line (c : TextCursor) : List UInt8 := c.rest.takeWhile (· != 0x0A)

theorem takeLine_eq (target : UInt8) (taken : List UInt8)
    (last : Option (List UInt8 × Mark TextCursor)) (c : TextCursor) :
    takeLine target taken last c =
      (if target ∈ c.line then
          some ((beforeLast target c.line).reverse ++ taken,
            mark (c.skip (beforeLast target c.line).length))
        else last,
        c.skip c.line.length) := by
  obtain ⟨rest, position, sentinel⟩ := c
  induction rest generalizing position taken last with
  | nil =>
    rw [takeLine]
    simp [line]
  | cons b rest ih =>
    rw [takeLine]
    by_cases feed : b = 0x0A
    · simp [line, feed]
    · have more : line ⟨b :: rest, position, sentinel⟩ =
          b :: line ⟨rest, position + 1, sentinel⟩ := by
        simp [line, feed]
      simp only [atEnd_mk, List.isEmpty_cons, Bool.false_eq_true, dite_false, current_cons,
        beq_iff_eq, feed, if_false, advance_cons, ih, more, List.mem_cons, List.length_cons,
        skip_cons]
      by_cases later : target ∈ line ⟨rest, position + 1, sentinel⟩
      · simp [later, beforeLast, skip_cons]
      · by_cases here : b = target
        · simp [later, here, beforeLast]
        · simp [later, here, Ne.symm here]

theorem readUntilLastOnLine_eq (target : UInt8) (c : TextCursor) :
    readUntilLastOnLine target c =
      (beforeLast target c.line, c.skip (beforeLast target c.line).length) := by
  unfold readUntilLastOnLine
  rw [takeLine_eq]
  by_cases found : target ∈ c.line
  · simp only [if_pos found, List.append_nil, List.reverse_reverse]
    rfl
  · simp only [if_neg found, beforeLast_of_not_mem found]
    rfl

end ProfileTrace.TextCursor

namespace ProfileTrace
open Cursor Text
open TextCursor (advance_skip current_nil current_cons digitsValue drop_length_takeWhile
  readDigits_eq rest_skip skip_cons skip_skip skip_zero skipWhile_eq)

/-! ### Integers -/

theorem isHexDigit_of_isDigitByte {b : UInt8} (digit : isDigitByte b = true) :
    isHexDigit b = true := by
  simp only [isDigitByte, Bool.and_eq_true, decide_eq_true_eq, UInt8.le_iff_toNat_le] at digit
  obtain ⟨low, high⟩ := digit
  simp only [UInt8.reduceToNat] at low high
  have small : b.toNat - 48 < 16 := by omega
  simp [isHexDigit, digitValue?, low, high, small]

def beginsHex : List UInt8 → Bool
  | zero :: mark :: digit :: _ =>
      zero == 0x30 && (mark == 0x78 || mark == 0x58) && isHexDigit digit
  | _ => false

/-- Past the end of a text stands its sentinel. -/
theorem atHexLiteral_eq (c : TextCursor) :
    atHexLiteral c = (beginsHex (c.rest ++ [c.sentinel]), c) := by
  obtain ⟨rest, position, sentinel⟩ := c
  match rest with
  | [] =>
    -- a zero is not the mark of a literal too
    simp only [atHexLiteral, beginsHex, peek, current_nil, List.getElem?_nil, Option.getD_none,
      List.nil_append]
    by_cases zero : sentinel = 0x30
    · simp [zero]
    · simp [zero]
  | [zero] =>
    simp only [atHexLiteral, beginsHex, peek, current_cons, List.getElem?_cons_succ,
      List.getElem?_nil, Option.getD_none, List.cons_append, List.nil_append]
    -- nor is a mark a digit
    by_cases mark : sentinel = 0x78 ∨ sentinel = 0x58
    · rcases mark with rfl | rfl
      · split <;> rfl
      · split <;> rfl
    · rw [not_or] at mark
      simp [mark]
  | [zero, second] =>
    simp only [atHexLiteral, beginsHex, peek, current_cons, List.getElem?_cons_succ,
      List.getElem?_cons_zero, List.getElem?_nil, Option.getD_none, Option.getD_some,
      List.cons_append, List.nil_append]
    cases zero == 0x30 <;> cases second == 0x78 || second == 0x58 <;> simp
  | zero :: second :: digit :: rest =>
    simp only [atHexLiteral, beginsHex, current_cons, peek, List.getElem?_cons_succ,
      List.getElem?_cons_zero, Option.getD_some, List.cons_append]
    cases zero == 0x30 <;> cases second == 0x78 || second == 0x58 <;> simp

/-- Whether a sentinel is taken for a digit of the literal that a text ends before. -/
def completesLiteral (sentinel : UInt8) : List UInt8 → Bool
  | [] => isDigitByte sentinel
  | [zero, mark] => zero == 0x30 && (mark == 0x78 || mark == 0x58) && isHexDigit sentinel
  | _ => false

theorem completesLiteral_of_noDigit {sentinel : UInt8} (noDigit : isHexDigit sentinel = false)
    (text : List UInt8) : completesLiteral sentinel text = false := by
  match text with
  | [] =>
    refine Bool.eq_false_iff.mpr fun digit => ?_
    rw [isHexDigit_of_isDigitByte digit] at noDigit
    contradiction
  | [_, _] => rw [completesLiteral, noDigit, Bool.and_false]
  | [_] | _ :: _ :: _ :: _ => rfl

theorem beginsHex_concat {sentinel : UInt8} {text : List UInt8}
    (apart : completesLiteral sentinel text = false) :
    beginsHex (text ++ [sentinel]) = beginsHex text := by
  match text with
  | [] | [_] | _ :: _ :: _ :: _ => rfl
  | [_, _] => exact apart

theorem three_le_of_beginsHex {text : List UInt8} (hex : beginsHex text = true) :
    3 ≤ text.length := by
  match text with
  | [] | [_] | [_, _] => simp [beginsHex] at hex
  | _ :: _ :: _ :: _ => simp

def literalOf (text : List UInt8) : Nat × Nat :=
  let radix := if beginsHex text then 16 else 10
  let marked := if beginsHex text then 2 else 0
  let digits := (text.drop marked).takeWhile fun b => (digitValue? radix b).isSome
  (digitsValue radix 0 digits, marked + digits.length)

theorem readMagnitude_eq {c : TextCursor} (apart : completesLiteral c.sentinel c.rest = false) :
    readMagnitude c = ((literalOf c.rest).1, c.skip (literalOf c.rest).2) := by
  unfold readMagnitude
  rw [atHexLiteral_eq, beginsHex_concat apart]
  cases hex : beginsHex c.rest with
  | false => simp [readDigits_eq, literalOf, hex]
  | true =>
    have long := three_le_of_beginsHex hex
    have first : (Cursor.advance (c.skip 0)).2 = c.skip 1 :=
      advance_skip (Nat.lt_of_lt_of_le (by decide) long)
    rw [skip_zero] at first
    have second : (Cursor.advance (c.skip 1)).2 = c.skip 2 :=
      advance_skip (Nat.lt_of_lt_of_le (by decide) long)
    simp [first, second, readDigits_eq, literalOf, hex, skip_skip]

/-- An unsigned literal below 2^63, where a digit begins one, and how many bytes it takes. -/
def unsignedOf (text : List UInt8) : Option Nat × Nat :=
  if text.head?.any isDigitByte then
    (if (literalOf text).1 < 0x8000000000000000 then some (literalOf text).1 else none,
      (literalOf text).2)
  else (none, 0)

theorem readUnsigned_eq {c : TextCursor} (apart : completesLiteral c.sentinel c.rest = false) :
    readUnsigned c = ((unsignedOf c.rest).1, c.skip (unsignedOf c.rest).2) := by
  have first : isDigitByte (Cursor.current c) = c.rest.head?.any isDigitByte := by
    obtain ⟨rest, position, sentinel⟩ := c
    cases rest with
    | cons b rest => rfl
    | nil => exact apart
  unfold readUnsigned unsignedOf
  rw [first, readMagnitude_eq apart]
  split <;> rfl

theorem readUnsigned_of_completes {c : TextCursor}
    (completes : completesLiteral c.sentinel c.rest = true) :
    readUnsigned c = (some 0, c.skip c.rest.length) := by
  obtain ⟨rest, position, sentinel⟩ := c
  match rest with
  | [] =>
    have digit : isDigitByte sentinel = true := completes
    simp [readUnsigned, readMagnitude, atHexLiteral_eq, beginsHex, digit, readDigits_eq,
      digitsValue]
  | [zero, mark] =>
    simp only [completesLiteral, Bool.and_eq_true, beq_iff_eq] at completes
    obtain ⟨⟨rfl, marked⟩, digit⟩ := completes
    have zero : isDigitByte 0x30 = true := by decide
    simp [readUnsigned, readMagnitude, atHexLiteral_eq, beginsHex, marked, digit, zero,
      readDigits_eq, digitsValue, TextCursor.skip]
  | [_] | _ :: _ :: _ :: _ => simp [completesLiteral] at completes

/-- The integer that a text begins with, without spaces: it may have a sign, and is absent
without a digit or past 64 bits. Beside it is how many bytes it takes. -/
def signedOf (text : List UInt8) : Int × Nat :=
  if text.head? = some 0x2D then
    (((unsignedOf text.tail).1.map fun n => -(n : Int)).getD absent, 1 + (unsignedOf text.tail).2)
  else (((unsignedOf text).1.map fun n => (n : Int)).getD absent, (unsignedOf text).2)

def integerOf (text : List UInt8) : Int × Nat :=
  let blank := (text.takeWhile isSpaceByte).length
  ((signedOf (text.drop blank)).1, blank + (signedOf (text.drop blank)).2)

def unsignedText (text : List UInt8) : List UInt8 :=
  if text.head? = some 0x2D then text.tail else text

/-- Whether a sentinel is taken for a digit of the integer that a text ends before. -/
def completesInteger (sentinel : UInt8) (text : List UInt8) : Bool :=
  completesLiteral sentinel (unsignedText (text.dropWhile isSpaceByte))

theorem completesInteger_of_noDigit {sentinel : UInt8} (noDigit : isHexDigit sentinel = false)
    (text : List UInt8) : completesInteger sentinel text = false :=
  completesLiteral_of_noDigit noDigit _

def readSigned (c : TextCursor) : Int × TextCursor :=
  if Cursor.current c == 0x2D then
    (((readUnsigned (Cursor.advance c).2).1.map fun n => -(n : Int)).getD absent,
      (readUnsigned (Cursor.advance c).2).2)
  else (((readUnsigned c).1.map fun n => (n : Int)).getD absent, (readUnsigned c).2)

theorem readInt_eq_readSigned (c : TextCursor) :
    readInt c = readSigned (c.skip (c.rest.takeWhile isSpaceByte).length) := by
  rw [← skipWhile_eq isSpaceByte c]
  rfl

theorem readSigned_eq {c : TextCursor}
    (apart : completesLiteral c.sentinel (unsignedText c.rest) = false) :
    readSigned c = ((signedOf c.rest).1, c.skip (signedOf c.rest).2) := by
  obtain ⟨rest, position, sentinel⟩ := c
  cases rest with
  | nil =>
    -- a sentinel that is a sign is not followed by a digit either
    have here := readUnsigned_eq (c := ⟨[], position, sentinel⟩) apart
    simp [readSigned, here, signedOf, unsignedOf]
  | cons b rest =>
    by_cases sign : b = 0x2D
    · have next := readUnsigned_eq (c := ⟨rest, position + 1, sentinel⟩)
        (by simpa [unsignedText, sign] using apart)
      simp [readSigned, sign, next, signedOf, Nat.add_comm 1, skip_cons]
    · have here := readUnsigned_eq (c := ⟨b :: rest, position, sentinel⟩)
        (by simpa [unsignedText, sign] using apart)
      simp [readSigned, sign, here, signedOf]

theorem readSigned_of_completes {c : TextCursor}
    (completes : completesLiteral c.sentinel (unsignedText c.rest) = true) :
    readSigned c = (0, c.skip c.rest.length) := by
  obtain ⟨rest, position, sentinel⟩ := c
  cases rest with
  | nil =>
    have here := readUnsigned_of_completes (c := ⟨[], position, sentinel⟩) completes
    simp [readSigned, here]
  | cons b rest =>
    by_cases sign : b = 0x2D
    · have next := readUnsigned_of_completes (c := ⟨rest, position + 1, sentinel⟩)
        (by simpa [unsignedText, sign] using completes)
      simp [readSigned, sign, next, skip_cons]
    · have here := readUnsigned_of_completes (c := ⟨b :: rest, position, sentinel⟩)
        (by simpa [unsignedText, sign] using completes)
      simp [readSigned, sign, here]

/-- An integer is that of the text, unless the text ends before it and the sentinel completes it. -/
theorem readInt_eq_integerOf {c : TextCursor}
    (apart : completesInteger c.sentinel c.rest = false) :
    readInt c = ((integerOf c.rest).1, c.skip (integerOf c.rest).2) := by
  have signed := readSigned_eq (c := c.skip (c.rest.takeWhile isSpaceByte).length)
    (by rwa [rest_skip, drop_length_takeWhile])
  rw [readInt_eq_readSigned, signed, skip_skip]
  rfl

theorem readInt_eq {c : TextCursor} (noDigit : isHexDigit c.sentinel = false) :
    readInt c = ((integerOf c.rest).1, c.skip (integerOf c.rest).2) :=
  readInt_eq_integerOf (completesInteger_of_noDigit noDigit c.rest)

theorem readInt_of_completes {c : TextCursor}
    (completes : completesInteger c.sentinel c.rest = true) :
    readInt c = (0, c.skip c.rest.length) := by
  have signed := readSigned_of_completes (c := c.skip (c.rest.takeWhile isSpaceByte).length)
    (by rwa [rest_skip, drop_length_takeWhile])
  have blank := (List.takeWhile_prefix isSpaceByte (l := c.rest)).length_le
  rw [readInt_eq_readSigned, signed, skip_skip, rest_skip, List.length_drop,
    Nat.add_sub_cancel' blank]

theorem unsignedOf_of_completes {sentinel : UInt8} {text : List UInt8}
    (completes : completesLiteral sentinel text = true) :
    (unsignedOf text).1 = none ∨ (unsignedOf text).2 < text.length := by
  match text with
  | [] => exact Or.inl rfl
  | [zero, mark] =>
    simp only [completesLiteral, Bool.and_eq_true, beq_iff_eq, Bool.or_eq_true] at completes
    obtain ⟨⟨rfl, rfl | rfl⟩, -⟩ := completes
    · exact Or.inr (by decide)
    · exact Or.inr (by decide)
  | [_] | _ :: _ :: _ :: _ => simp [completesLiteral] at completes

theorem integerOf_of_completes {sentinel : UInt8} {text : List UInt8}
    (completes : completesInteger sentinel text = true) :
    (integerOf text).1 = absent ∨ (integerOf text).2 < text.length := by
  have signed : ∀ {text : List UInt8}, completesLiteral sentinel (unsignedText text) = true →
      (signedOf text).1 = absent ∨ (signedOf text).2 < text.length := by
    intro text completes
    have found := unsignedOf_of_completes completes
    unfold signedOf
    by_cases sign : text.head? = some 0x2D
    · rw [if_pos sign]
      rw [unsignedText, if_pos sign] at found
      have tail := text.length_tail
      exact found.imp (fun none => by rw [none]; rfl) fun short => by omega
    · rw [if_neg sign]
      rw [unsignedText, if_neg sign] at found
      exact found.imp (fun none => by rw [none]; rfl) id
  have parts := List.takeWhile_append_dropWhile (p := isSpaceByte) (l := text)
  have whole := congrArg List.length parts
  rw [List.length_append] at whole
  rw [integerOf, drop_length_takeWhile]
  exact (signed completes).imp id fun short => by omega

end ProfileTrace
