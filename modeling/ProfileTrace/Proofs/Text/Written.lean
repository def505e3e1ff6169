import Mathlib.Data.List.Basic
import ProfileTrace.Proofs.Record.Scan
import ProfileTrace.Text.Latin
import ProfileTrace.Text.Wrapping

/-! Text as it is written: one byte for each character, numbers in decimal, and columns from
which nothing can be trimmed. -/

namespace ProfileTrace.Text

/-! ### Bytes of a text -/

/-- A text is looked through one character after the other, and not the other way round by
trying all of the characters that there are. Bytes are looked through in the same way. -/
instance (priority := 2000) decidableForallChars (p : Char → Prop) [DecidablePred p]
    (text : String) : Decidable (∀ c ∈ text.toList, p c) :=
  List.decidableBAll p text.toList

instance (priority := 2000) decidableForallBytes (p : UInt8 → Prop) [DecidablePred p]
    (bytes : List UInt8) : Decidable (∀ b ∈ bytes, p b) :=
  List.decidableBAll p bytes

def IsLatin (text : String) : Prop := ∀ c ∈ text.toList, c.toNat ≤ 0xFF

instance : DecidablePred IsLatin := fun text =>
  inferInstanceAs (Decidable (∀ c ∈ text.toList, c.toNat ≤ 0xFF))

section
variable {text : String}

theorem charOfByte_ofNat {c : Char} (latin : c.toNat ≤ 0xFF) :
    charOfByte (UInt8.ofNat c.toNat) = c := by
  apply Char.toNat_inj.mp
  rw [toNat_charOfByte]
  exact UInt8.toNat_ofNat_of_lt (Nat.lt_succ_of_le latin)

theorem map_charOfByte_toBytes (latin : IsLatin text) :
    (toBytes text).map charOfByte = text.toList := by
  rw [toBytes, List.map_map]
  conv => rhs; rw [← List.map_id text.toList]
  exact List.map_congr_left fun c inside => charOfByte_ofNat (latin c inside)

theorem ofBytes_toBytes (latin : IsLatin text) : ofBytes (toBytes text) = text := by
  rw [ofBytes, map_charOfByte_toBytes latin, String.ofList_toList]

theorem mem_toBytes (latin : IsLatin text) {b : UInt8} :
    b ∈ toBytes text ↔ charOfByte b ∈ text.toList := by
  rw [← map_charOfByte_toBytes latin]
  constructor
  · exact fun inside => List.mem_map_of_mem inside
  · intro inside
    obtain ⟨a, among, same⟩ := List.mem_map.mp inside
    rwa [← charOfByte_injective same]

theorem head?_toBytes_ne (latin : IsLatin text) {a b : UInt8}
    (other : text.toList.head? ≠ some (charOfByte a)) (first : (toBytes text).head? = some b) :
    b ≠ a := by
  rintro rfl
  apply other
  rw [← map_charOfByte_toBytes latin, List.head?_map, first]
  rfl

end

theorem IsLatin.append {first second : String} (one : IsLatin first) (two : IsLatin second) :
    IsLatin (first ++ second) := by
  intro c inside
  rw [String.toList_append, List.mem_append] at inside
  rcases inside with left | right
  · exact one c left
  · exact two c right

theorem isLatin_intercalate {between : String} (latin : IsLatin between) {texts : List String}
    (all : ∀ text ∈ texts, IsLatin text) : IsLatin (between.intercalate texts) := by
  induction texts with
  | nil => exact fun c inside => absurd inside (by simp)
  | cons first texts ih =>
    have rest := ih fun text among => all text (List.mem_cons_of_mem _ among)
    have here := all first List.mem_cons_self
    cases texts with
    | nil => simpa using here
    | cons second texts =>
      rw [String.intercalate_cons_cons]
      exact (here.append latin).append rest

@[simp] theorem toBytes_append (first second : String) :
    toBytes (first ++ second) = toBytes first ++ toBytes second := by
  simp only [toBytes, String.toList_append, List.map_append]

theorem toBytes_join (texts : List String) :
    toBytes (String.join texts) = texts.flatMap toBytes := by
  simp only [toBytes, String.toList_join, List.map_flatMap]
  rfl

theorem toBytes_intercalate (between : String) (texts : List String) :
    toBytes (between.intercalate texts) = (toBytes between).intercalate (texts.map toBytes) := by
  induction texts with
  | nil => rfl
  | cons first texts ih =>
    cases texts with
    | nil => simp [toBytes]
    | cons second texts =>
      rw [String.intercalate_cons_cons, toBytes_append, toBytes_append, ih]
      simp only [List.map_cons, List.intercalate_cons_cons]

theorem exists_intercalate_append (between first : List UInt8) (words : List (List UInt8)) :
    ∃ rest, between.intercalate (first :: words) ++ between = first ++ (between ++ rest) := by
  cases words with
  | nil => exact ⟨[], by simp⟩
  | cons second words =>
    refine ⟨between.intercalate (second :: words) ++ between, ?_⟩
    simp only [List.intercalate_cons_cons, List.append_assoc]

/-! ### Numbers -/

def decimal (n : Nat) : List UInt8 := toBytes (toString n)

theorem decimal_eq (n : Nat) :
    decimal n = (Nat.toDigits 10 n).map fun c => UInt8.ofNat c.toNat := by
  rw [decimal, toBytes, show toString n = n.repr from rfl, Nat.toList_repr]

theorem decimal_ne_nil (n : Nat) : decimal n ≠ [] := by
  rw [decimal_eq]
  exact fun none => Nat.toDigits_ne_nil (List.map_eq_nil_iff.mp none)

theorem digit_of_isDigit {c : Char} (digit : c.isDigit = true) :
    isDigitByte (UInt8.ofNat c.toNat) = true ∧
      digitValue? 10 (UInt8.ofNat c.toNat) = some (c.toNat - '0'.toNat) := by
  have bounds : 48 ≤ c.toNat ∧ c.toNat ≤ 57 := Char.isDigit_iff_toNat.mp digit
  obtain ⟨low, high⟩ := bounds
  have small : (UInt8.ofNat c.toNat).toNat = c.toNat :=
    UInt8.toNat_ofNat_of_lt (Nat.lt_of_le_of_lt high (by decide))
  constructor
  · simp [isDigitByte, UInt8.le_iff_toNat_le, small, low, high]
  · have value : c.toNat - 48 < 10 := by omega
    simp [digitValue?, small, low, high, value]

theorem isDigit_charOfByte {b : UInt8} (digit : isDigitByte b = true) :
    (charOfByte b).isDigit = true := by
  simp only [isDigitByte, Bool.and_eq_true, decide_eq_true_eq, UInt8.le_iff_toNat_le] at digit
  rw [Char.isDigit_iff_toNat, toNat_charOfByte]
  exact digit

theorem isDigitByte_of_mem_decimal {n : Nat} {b : UInt8} (inside : b ∈ decimal n) :
    isDigitByte b = true := by
  rw [decimal_eq] at inside
  obtain ⟨c, among, rfl⟩ := List.mem_map.mp inside
  exact (digit_of_isDigit (Nat.isDigit_of_mem_toDigits (by decide) (by decide) among)).1

theorem digitsValue_decimal (n : Nat) : TextCursor.digitsValue 10 0 (decimal n) = n := by
  have digits : ∀ (chars : List Char) (value : Nat), (∀ c ∈ chars, c.isDigit = true) →
      TextCursor.digitsValue 10 value (chars.map fun c => UInt8.ofNat c.toNat) =
        Nat.ofDigitChars 10 chars value := by
    intro chars
    induction chars with
    | nil => exact fun _ _ => rfl
    | cons c chars ih =>
      intro value all
      have first := (digit_of_isDigit (all c List.mem_cons_self)).2
      have rest := ih (10 * value + (c.toNat - '0'.toNat)) fun d inside =>
        all d (List.mem_cons_of_mem c inside)
      simp only [TextCursor.digitsValue, List.map_cons, List.foldl_cons, first, Option.getD_some,
        Nat.mul_comm value 10] at rest ⊢
      exact rest
  have isDigit : ∀ c ∈ Nat.toDigits 10 n, c.isDigit = true := fun c inside =>
    Nat.isDigit_of_mem_toDigits (by decide) (by decide) inside
  rw [decimal_eq, digits _ 0 isDigit]
  exact Nat.ofDigitChars_toDigits (by decide) (by decide)

/-! ### Trimming -/

theorem trimChars_cons {c : Char} (blank : isBlank c = true) (chars : List Char) :
    trimChars (c :: chars) = trimChars chars := by
  rw [trimChars, List.dropWhile_cons_of_pos blank]
  rfl

theorem trimChars_concat {c : Char} (blank : isBlank c = true) (chars : List Char) :
    trimChars (chars ++ [c]) = trimChars chars := by
  unfold trimChars
  rw [List.dropWhile_append]
  cases shape : chars.dropWhile isBlank with
  | nil => simp [blank]
  | cons d rest => simp [blank]

theorem trimChars_wrapped {opening closing : Char} (front : isBlank opening = false)
    (back : isBlank closing = false) (chars : List Char) :
    trimChars (opening :: (chars ++ [closing])) = opening :: (chars ++ [closing]) := by
  have reversed : (opening :: (chars ++ [closing])).reverse =
      closing :: (opening :: chars).reverse := by simp
  rw [trimChars, List.dropWhile_cons_of_neg (by simp [front]), reversed,
    List.dropWhile_cons_of_neg (by simp [back]), ← reversed, List.reverse_reverse]

theorem length_trimChars_le (chars : List Char) : (trimChars chars).length ≤ chars.length := by
  have front := (List.dropWhile_sublist (l := chars) isBlank).length_le
  have back := (List.dropWhile_sublist (l := (chars.dropWhile isBlank).reverse) isBlank).length_le
  rw [List.length_reverse] at back
  rw [trimChars, List.length_reverse]
  exact Nat.le_trans back front

theorem isBlank_head_eq_false {c : Char} {chars : List Char}
    (trimmed : trimChars (c :: chars) = c :: chars) : isBlank c = false := by
  cases blank : isBlank c with
  | false => rfl
  | true =>
    have short := length_trimChars_le chars
    rw [← trimChars_cons blank, trimmed, List.length_cons] at short
    omega

theorem isBlank_of_isSpaceByte {b : UInt8} (space : isSpaceByte b = true) :
    isBlank (charOfByte b) = true := by
  simp only [isSpaceByte, Bool.or_eq_true, beq_iff_eq] at space
  rcases space with rfl | rfl
  · decide
  · decide

theorem trim_ofBytes_cons {b : UInt8} (space : isSpaceByte b = true) (bytes : List UInt8) :
    trim (ofBytes (b :: bytes)) = trim (ofBytes bytes) := by
  simp only [trim, toList_ofBytes, List.map_cons, trimChars_cons (isBlank_of_isSpaceByte space)]

/-! ### Brackets -/

theorem unwrapChars_wrapped {opening closing : Char}
    (pair : isBracketPair opening closing = true) (chars : List Char) :
    unwrapChars (opening :: (chars ++ [closing])) = unwrapChars chars := by
  obtain ⟨second, rest, shape⟩ := List.exists_cons_of_ne_nil (List.concat_ne_nil closing chars)
  have last : isBracketPair opening ((second :: rest).getLast (List.cons_ne_nil _ _)) = true := by
    simp only [← shape, List.getLast_append_singleton, pair]
  rw [shape, unwrapChars, if_pos last, ← shape, List.dropLast_concat]

theorem pieces_concat (separator : Char) (chars : List Char) :
    pieces separator (chars ++ [separator]) = pieces separator chars ++ [[]] := by
  rw [pieces_eq_splitOn, pieces_eq_splitOn, List.splitOn_append_cons_self, List.splitOn_nil]

end ProfileTrace.Text
