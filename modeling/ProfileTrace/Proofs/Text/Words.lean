import Mathlib.Data.List.TakeWhile
import ProfileTrace.Proofs.Text.Written

/-! Words between separators, brackets around a text and the last part of a path. What taking a
text apart finds is told by how the text was put together. -/

namespace ProfileTrace.Text

/-! ### Words -/

section
variable {separator : Char}

theorem pieces_flatMap_append {words : List (List Char)} (plain : ∀ word ∈ words, separator ∉ word)
    (rest : List Char) :
    pieces separator (words.flatMap (· ++ [separator]) ++ rest) =
      words ++ pieces separator rest := by
  simp only [pieces_eq_splitOn]
  induction words with
  | nil => rfl
  | cons word words ih =>
    have others := ih fun word among => plain word (List.mem_cons_of_mem _ among)
    rw [List.flatMap_cons, List.append_assoc, List.append_assoc, List.singleton_append,
      List.splitOn_append_cons_self_of_not_mem (plain word List.mem_cons_self), others,
      List.cons_append]

theorem mem_pieces_intercalate {words : List (List Char)} {piece : List Char}
    (plain : ∀ word ∈ words, separator ∉ word)
    (among : piece ∈ pieces separator ([separator].intercalate words)) :
    piece ∈ words ∨ piece = [] := by
  by_cases none : words = []
  · subst none
    exact Or.inr (List.mem_singleton.mp among)
  · rw [pieces_eq_splitOn, List.splitOn_intercalate separator plain none] at among
    exact Or.inl among

theorem mem_pieces_append_replicate {chars piece : List Char} {count : Nat}
    (among : piece ∈ pieces separator (chars ++ List.replicate count separator)) :
    piece ∈ pieces separator chars ∨ piece = [] := by
  induction count with
  | zero => exact Or.inl (by simpa using among)
  | succ count ih =>
    rw [List.replicate_succ', ← List.append_assoc, pieces_concat, List.mem_append,
      List.mem_singleton] at among
    rcases among with inside | last
    · exact ih inside
    · exact Or.inr last

end

theorem map_intercalate {α β : Type} (f : α → β) (between : List α) (words : List (List α)) :
    (between.intercalate words).map f = (between.map f).intercalate (words.map (List.map f)) := by
  induction words with
  | nil => rfl
  | cons first words ih =>
    cases words with
    | nil => simp
    | cons second words =>
      rw [List.intercalate_cons_cons, List.map_append, List.map_append, ih]
      simp only [List.map_cons, List.intercalate_cons_cons]

theorem trimChars_append_replicate {c : Char} (blank : isBlank c = true) (chars : List Char)
    (count : Nat) : trimChars (chars ++ List.replicate count c) = trimChars chars := by
  induction count with
  | zero => rw [List.replicate_zero, List.append_nil]
  | succ count ih => rw [List.replicate_succ', ← List.append_assoc, trimChars_concat blank, ih]

/-! ### Brackets -/

def Wrapped {α : Type} (opening closing : α) (text : List α) : Prop :=
  ∃ inner, text = opening :: (inner ++ [closing])

theorem wrapped_iff {α : Type} {opening closing : α} {text : List α} :
    Wrapped opening closing text ↔
      text.head? = some opening ∧ text.tail.getLast? = some closing := by
  constructor
  · rintro ⟨inner, rfl⟩
    exact ⟨rfl, List.getLast?_concat⟩
  · rintro ⟨first, last⟩
    obtain ⟨inner, tail⟩ := List.getLast?_eq_some_iff.mp last
    exact ⟨inner, tail ▸ List.eq_cons_of_mem_head? first⟩

instance {α : Type} [DecidableEq α] (opening closing : α) :
    DecidablePred (Wrapped opening closing) := fun _ => decidable_of_iff _ wrapped_iff.symm

theorem isBracketPair_iff {opening closing : Char} :
    isBracketPair opening closing = true ↔
      (opening = '(' ∧ closing = ')') ∨ (opening = '[' ∧ closing = ']') := by
  simp [isBracketPair]

theorem cons_dropLast_getLast (first second : Char) (rest : List Char) :
    first :: second :: rest = first :: ((second :: rest).dropLast ++
      [(second :: rest).getLast (List.cons_ne_nil _ _)]) := by
  rw [List.dropLast_concat_getLast]

theorem isWrapped_iff {chars : List Char} :
    isWrapped chars = true ↔ Wrapped '(' ')' chars ∨ Wrapped '[' ']' chars := by
  constructor
  · intro wrapped
    match chars with
    | [] | [_] => simp [isWrapped] at wrapped
    | first :: second :: rest =>
      have whole := cons_dropLast_getLast first second rest
      rcases isBracketPair_iff.mp wrapped with ⟨front, back⟩ | ⟨front, back⟩
      · exact Or.inl ⟨_, whole.trans (by rw [front, back])⟩
      · exact Or.inr ⟨_, whole.trans (by rw [front, back])⟩
  · have wrapped : ∀ {opening closing : Char} (inner : List Char),
        isBracketPair opening closing = true →
          isWrapped (opening :: (inner ++ [closing])) = true := by
      intro opening closing inner pair
      obtain ⟨second, rest, shape⟩ := List.exists_cons_of_ne_nil (List.concat_ne_nil closing inner)
      rw [shape, isWrapped]
      simp only [← shape, List.getLast_append_singleton, pair]
    rintro (⟨inner, rfl⟩ | ⟨inner, rfl⟩)
    · exact wrapped inner rfl
    · exact wrapped inner rfl

/-- What is left of a text without the pairs of brackets around it. -/
inductive Unwraps : List Char → List Char → Prop where
  | bare {text : List Char} (round : ¬Wrapped '(' ')' text) (square : ¬Wrapped '[' ']' text) :
      Unwraps text text
  | layer {opening closing : Char} {inner text : List Char}
      (pair : isBracketPair opening closing = true) (within : Unwraps inner text) :
      Unwraps (opening :: (inner ++ [closing])) text

theorem Unwraps.eq {chars text : List Char} (unwraps : Unwraps chars text) :
    unwrapChars chars = text := by
  induction unwraps with
  | @bare text round square =>
    have bare : ¬isWrapped text = true := by simp [isWrapped_iff, round, square]
    match text with
    | [] | [_] => simp [unwrapChars]
    | first :: second :: rest =>
      rw [unwrapChars]
      exact if_neg bare
  | layer pair within ih => rw [unwrapChars_wrapped pair, ih]

theorem unwraps_unwrapChars (chars : List Char) : Unwraps chars (unwrapChars chars) := by
  fun_induction unwrapChars chars with
  | case1 first second rest pair ih =>
    rw [cons_dropLast_getLast]
    exact .layer pair ih
  | case2 first second rest none =>
    have bare : ¬isWrapped (first :: second :: rest) = true := none
    rw [isWrapped_iff, not_or] at bare
    exact .bare bare.1 bare.2
  | case3 chars short =>
    have bare : ¬isWrapped chars = true := by
      match chars with
      | [] | [_] => simp [isWrapped]
      | first :: second :: rest => exact absurd rfl (short first second rest)
    rw [isWrapped_iff, not_or] at bare
    exact .bare bare.1 bare.2

theorem Unwraps.isWrapped_eq_false {chars text : List Char} (unwraps : Unwraps chars text) :
    isWrapped text = false := by
  induction unwraps with
  | bare round square => simp [← Bool.not_eq_true, isWrapped_iff, round, square]
  | layer pair within ih => exact ih

theorem Unwraps.subset {chars text : List Char} (unwraps : Unwraps chars text) :
    text ⊆ chars := by
  induction unwraps with
  | bare round square => exact List.Subset.refl _
  | layer pair within ih =>
    exact List.Subset.trans ih (List.subset_cons_of_subset _ (List.subset_append_left _ _))

theorem unwrapChars_eq_self_iff {chars : List Char} :
    unwrapChars chars = chars ↔ isWrapped chars = false := by
  constructor
  · intro same
    exact same ▸ (unwraps_unwrapChars chars).isWrapped_eq_false
  · intro bare
    rw [← Bool.not_eq_true, isWrapped_iff, not_or] at bare
    exact (Unwraps.bare bare.1 bare.2).eq

/-! ### Paths -/

theorem baseNameChars_of_not_mem {path : List Char} (plain : '/' ∉ path) :
    baseNameChars path = path := by
  have passed : ∀ c ∈ path.reverse, (c != '/') = true := fun c among =>
    bne_iff_ne.mpr fun same => plain (same ▸ List.mem_reverse.mp among)
  rw [baseNameChars, List.takeWhile_eq_self_iff.mpr passed, List.reverse_reverse, ite_self]

theorem baseNameChars_concat_slash (directory : List Char) :
    baseNameChars (directory ++ ['/']) = directory ++ ['/'] := by
  rw [baseNameChars, List.reverse_append, List.reverse_singleton, List.singleton_append,
    List.takeWhile_cons_of_neg (by decide)]
  rfl

theorem baseNameChars_append_slash (directory : List Char) {part : List Char}
    (plain : '/' ∉ part) (nonempty : part ≠ []) :
    baseNameChars (directory ++ '/' :: part) = part := by
  have passed : ∀ c ∈ part.reverse, (c != '/') = true := fun c among =>
    bne_iff_ne.mpr fun same => plain (same ▸ List.mem_reverse.mp among)
  rw [baseNameChars, List.reverse_append, List.reverse_cons, List.append_assoc,
    List.takeWhile_append_of_pos passed, List.singleton_append,
    List.takeWhile_cons_of_neg (by decide), List.append_nil, List.reverse_reverse]
  simp [nonempty]

theorem path_cases (path : List Char) :
    '/' ∉ path ∨ (∃ directory, path = directory ++ ['/']) ∨
      ∃ directory part, path = directory ++ '/' :: part ∧ '/' ∉ part ∧ part ≠ [] := by
  by_cases inside : '/' ∈ path
  · obtain ⟨behind, before, reversed, plain⟩ :=
      List.eq_append_cons_of_mem (List.mem_reverse.mpr inside)
    have whole : path = before.reverse ++ '/' :: behind.reverse := by
      rw [← List.reverse_reverse path, reversed]
      simp
    by_cases nothing : behind = []
    · exact Or.inr (Or.inl ⟨_, by rw [whole, nothing, List.reverse_nil]⟩)
    · exact Or.inr (Or.inr ⟨_, _, whole, fun among => plain (List.mem_reverse.mp among),
        fun empty => nothing (List.reverse_eq_nil_iff.mp empty)⟩)
  · exact Or.inl inside

/-- The part of a path behind its last slash, or the whole path without one. -/
structure IsLastPart (path part : List UInt8) : Prop where
  plain : 0x2F ∉ part
  behind : ∃ directory, path = directory ++ part ∧
    (directory = [] ∨ directory.getLast? = some 0x2F)

theorem exists_isLastPart (path : List UInt8) : ∃ part, IsLastPart path part := by
  have parts := List.takeWhile_append_dropWhile (p := (· != 0x2F)) (l := path.reverse)
  refine ⟨(path.reverse.takeWhile (· != 0x2F)).reverse, ?_,
    (path.reverse.dropWhile (· != 0x2F)).reverse, ?_, ?_⟩
  · intro inside
    have passed := List.mem_takeWhile_imp (List.mem_reverse.mp inside)
    simp at passed
  · rw [← List.reverse_append, parts, List.reverse_reverse]
  · have first := List.head?_dropWhile_not (· != 0x2F) path.reverse
    rw [List.getLast?_reverse]
    cases shape : path.reverse.dropWhile (· != 0x2F) with
    | nil => exact Or.inl rfl
    | cons b rest =>
      rw [shape] at first
      exact Or.inr (by simpa using first)

theorem IsLastPart.ne_nil {path part : List UInt8} (last : IsLastPart path part)
    (nonempty : path ≠ []) (noSlash : path.getLast? ≠ some 0x2F) : part ≠ [] := by
  rintro rfl
  obtain ⟨directory, rfl, none | ended⟩ := last.behind
  · exact nonempty (by rw [none, List.append_nil])
  · exact noSlash (by rw [List.append_nil, ended])

theorem charOfByte_eq_slash {b : UInt8} : charOfByte b = '/' ↔ b = 0x2F :=
  ⟨fun same => charOfByte_injective same, fun same => same ▸ rfl⟩

theorem IsLastPart.baseName_eq {path part : List UInt8} (last : IsLastPart path part)
    (some : part ≠ []) : baseName (ofBytes path) = ofBytes part := by
  have plain : '/' ∉ part.map charOfByte := by
    intro inside
    obtain ⟨b, among, same⟩ := List.mem_map.mp inside
    exact last.plain (charOfByte_eq_slash.mp same ▸ among)
  have nonempty : part.map charOfByte ≠ [] := List.map_eq_nil_iff.not.mpr some
  obtain ⟨directory, rfl, rfl | ended⟩ := last.behind
  · rw [baseName, toList_ofBytes, List.nil_append, baseNameChars_of_not_mem plain]
    rfl
  · obtain ⟨before, rfl⟩ := List.getLast?_eq_some_iff.mp ended
    have whole : (before ++ [0x2F] ++ part).map charOfByte =
        before.map charOfByte ++ '/' :: part.map charOfByte := by
      rw [List.append_assoc, List.map_append]
      rfl
    rw [baseName, toList_ofBytes, whole, baseNameChars_append_slash _ plain nonempty]
    rfl

end ProfileTrace.Text
