import ProfileTrace.Proofs.Text.Words

/-! Layers of brackets. What unwrapping leaves is told by all the layers around it together, and
it is the same when the brackets come off by bytes, since each of them is a whole character. -/

namespace ProfileTrace.Text

/-! ### Layers -/

inductive Bracket where
  | round
  | square
  deriving DecidableEq, Repr

namespace Bracket

def opening : Bracket → Char
  | round => '('
  | square => '['

def closing : Bracket → Char
  | round => ')'
  | square => ']'

theorem opening_ne_closing (bracket : Bracket) : bracket.opening ≠ bracket.closing := by
  cases bracket <;> decide

@[simp] theorem utf8Size_opening (bracket : Bracket) : bracket.opening.utf8Size = 1 := by
  cases bracket <;> rfl

@[simp] theorem utf8Size_closing (bracket : Bracket) : bracket.closing.utf8Size = 1 := by
  cases bracket <;> rfl

theorem wrapped_iff_ends {bracket : Bracket} {chars : List Char} :
    Wrapped bracket.opening bracket.closing chars ↔
      chars.head? = some bracket.opening ∧ chars.getLast? = some bracket.closing := by
  rw [wrapped_iff]
  refine and_congr_right fun first => ?_
  obtain ⟨rest, rfl⟩ := List.head?_eq_some_iff.mp first
  cases rest with
  | nil => simp [bracket.opening_ne_closing]
  | cons second rest => rw [List.tail_cons, List.getLast?_cons_cons]

theorem eq_append_of_toList_eq {bracket : Bracket} {text : String} {inner : List Char}
    (whole : text.toList = bracket.opening :: (inner ++ [bracket.closing])) :
    text = String.singleton bracket.opening ++ String.ofList inner ++
      String.singleton bracket.closing := by
  rw [← String.toList_inj, whole]
  simp

end Bracket

theorem isBracketPair_iff_exists {opening closing : Char} :
    isBracketPair opening closing = true ↔
      ∃ bracket : Bracket, opening = bracket.opening ∧ closing = bracket.closing := by
  rw [isBracketPair_iff]
  constructor
  · rintro (pair | pair)
    · exact ⟨.round, pair⟩
    · exact ⟨.square, pair⟩
  · rintro ⟨_ | _, pair⟩
    · exact Or.inl pair
    · exact Or.inr pair

theorem isWrapped_iff_exists {chars : List Char} :
    isWrapped chars = true ↔
      ∃ bracket : Bracket, Wrapped bracket.opening bracket.closing chars := by
  rw [isWrapped_iff]
  constructor
  · rintro (wrapped | wrapped)
    · exact ⟨.round, wrapped⟩
    · exact ⟨.square, wrapped⟩
  · rintro ⟨_ | _, wrapped⟩
    · exact Or.inl wrapped
    · exact Or.inr wrapped

theorem two_le_utf8ByteSize_of_isWrapped {text : String}
    (wrapped : isWrapped text.toList = true) : 2 ≤ text.utf8ByteSize := by
  obtain ⟨bracket, inner, whole⟩ := isWrapped_iff_exists.mp wrapped
  rw [Bracket.eq_append_of_toList_eq whole]
  simp only [String.utf8ByteSize_append, String.utf8ByteSize_singleton,
    Bracket.utf8Size_opening, Bracket.utf8Size_closing]
  omega

def enclose (layers : List Bracket) (text : List Char) : List Char :=
  layers.map Bracket.opening ++ text ++ (layers.map Bracket.closing).reverse

@[simp] theorem enclose_nil (text : List Char) : enclose [] text = text := by
  simp [enclose]

theorem enclose_cons (bracket : Bracket) (layers : List Bracket) (text : List Char) :
    enclose (bracket :: layers) text =
      bracket.opening :: (enclose layers text ++ [bracket.closing]) := by
  simp [enclose]

/-- The text is shorter than two bytes, or its first and its last character are no brackets that
belong together. -/
def IsBare (text : String) : Prop :=
  text.utf8ByteSize < 2 ∨ ∀ bracket : Bracket,
    ¬(text.toList.head? = some bracket.opening ∧ text.toList.getLast? = some bracket.closing)

theorem isBare_iff {text : String} : IsBare text ↔ isWrapped text.toList = false := by
  rw [← Bool.not_eq_true]
  constructor
  · rintro (short | others) wrapped
    · have long := two_le_utf8ByteSize_of_isWrapped wrapped
      omega
    · obtain ⟨bracket, inside⟩ := isWrapped_iff_exists.mp wrapped
      exact others bracket (Bracket.wrapped_iff_ends.mp inside)
  · intro bare
    exact Or.inr fun bracket ends =>
      bare (isWrapped_iff_exists.mpr ⟨bracket, Bracket.wrapped_iff_ends.mpr ends⟩)

/-! ### What is inside of all layers -/

theorem Unwraps.exists_layers {chars text : List Char} (unwraps : Unwraps chars text) :
    ∃ layers, chars = enclose layers text := by
  induction unwraps with
  | bare round square => exact ⟨[], (enclose_nil _).symm⟩
  | layer pair within ih =>
    obtain ⟨layers, rfl⟩ := ih
    obtain ⟨bracket, rfl, rfl⟩ := isBracketPair_iff_exists.mp pair
    exact ⟨bracket :: layers, (enclose_cons bracket layers _).symm⟩

theorem unwraps_enclose {text : List Char} (bare : isWrapped text = false)
    (layers : List Bracket) : Unwraps (enclose layers text) text := by
  induction layers with
  | nil =>
    rw [enclose_nil]
    have left := unwraps_unwrapChars text
    rwa [unwrapChars_eq_self_iff.mpr bare] at left
  | cons bracket layers ih =>
    rw [enclose_cons]
    exact .layer (isBracketPair_iff_exists.mpr ⟨bracket, rfl, rfl⟩) ih

theorem unwrap_eq_iff {text inner : String} :
    unwrap text = inner ↔
      IsBare inner ∧ ∃ layers, text.toList = enclose layers inner.toList := by
  rw [← String.toList_inj, toList_unwrap, isBare_iff]
  constructor
  · intro left
    have unwraps := left ▸ unwraps_unwrapChars text.toList
    exact ⟨unwraps.isWrapped_eq_false, unwraps.exists_layers⟩
  · rintro ⟨bare, layers, whole⟩
    rw [whole]
    exact (unwraps_enclose bare layers).eq

/-! ### Brackets that come off by bytes -/

def isEnclosed (text : String.Slice) : Bool :=
  2 ≤ text.utf8ByteSize &&
    ((text.startsWith '(' && text.endsWith ')') || (text.startsWith '[' && text.endsWith ']'))

def dropEnds? (text : String.Slice) : Option String.Slice := do
  let start ← text.pos? ⟨1⟩
  let stop ← text.pos? ⟨text.utf8ByteSize - 1⟩
  text.slice? start stop

theorem offset_of_pos? {text : String.Slice} {offset : String.Pos.Raw} {border : text.Pos}
    (found : text.pos? offset = some border) : border.offset = offset := by
  rw [String.Slice.pos?] at found
  split at found
  · cases found
    rfl
  · contradiction

theorem utf8ByteSize_of_dropEnds? {text rest : String.Slice}
    (dropped : dropEnds? text = some rest) : rest.utf8ByteSize = text.utf8ByteSize - 2 := by
  simp only [dropEnds?, Option.bind_eq_bind, Option.bind_eq_some_iff] at dropped
  obtain ⟨start, foundStart, stop, foundStop, sliced⟩ := dropped
  rw [String.Slice.slice?] at sliced
  split at sliced
  · cases sliced
    rw [String.Slice.utf8ByteSize_slice, offset_of_pos? foundStart, offset_of_pos? foundStop]
    exact Nat.sub_sub ..
  · contradiction

theorem utf8ByteSize_lt_of_dropEnds? {text rest : String.Slice}
    (enclosed : isEnclosed text = true) (dropped : dropEnds? text = some rest) :
    rest.utf8ByteSize < text.utf8ByteSize := by
  have long : 2 ≤ text.utf8ByteSize := of_decide_eq_true (Bool.and_eq_true_iff.mp enclosed).1
  have shorter := utf8ByteSize_of_dropEnds? dropped
  omega

/-- Drops the ends for as long as brackets are there. There is no result if a character is cut. -/
def unwrapSlice? (text : String.Slice) : Option String.Slice :=
  if enclosed : isEnclosed text then
    match dropped : dropEnds? text with
    | some rest =>
        have := utf8ByteSize_lt_of_dropEnds? enclosed dropped
        unwrapSlice? rest
    | none => none
  else some text
termination_by text.utf8ByteSize

theorem unwrapSlice?_eq (text : String.Slice) :
    unwrapSlice? text =
      if isEnclosed text then (dropEnds? text).bind unwrapSlice? else some text := by
  rw [unwrapSlice?]
  split
  · split
    next rest dropped => exact congrArg (·.bind unwrapSlice?) dropped.symm
    next cut => exact congrArg (·.bind unwrapSlice?) cut.symm
  · rfl

theorem isEnclosed_iff {text : String.Slice} :
    isEnclosed text = true ↔ isWrapped text.copy.toList = true := by
  have ends : ∀ bracket : Bracket,
      (text.startsWith bracket.opening && text.endsWith bracket.closing) = true ↔
        Wrapped bracket.opening bracket.closing text.copy.toList := by
    intro bracket
    rw [String.Slice.startsWith_char_eq_head?, String.Slice.endsWith_char_eq_getLast?,
      Bool.and_eq_true, beq_iff_eq, beq_iff_eq, Bracket.wrapped_iff_ends]
  have either : ((text.startsWith '(' && text.endsWith ')') ||
      (text.startsWith '[' && text.endsWith ']')) = true ↔ isWrapped text.copy.toList = true := by
    rw [Bool.or_eq_true, isWrapped_iff]
    exact or_congr (ends .round) (ends .square)
  rw [isEnclosed, Bool.and_eq_true, decide_eq_true_eq, either, ← String.Slice.utf8ByteSize_copy]
  exact and_iff_right_of_imp two_le_utf8ByteSize_of_isWrapped

theorem exists_pos? {text : String.Slice} {before behind : String}
    (whole : text.copy = before ++ behind) :
    ∃ border, text.pos? before.rawEndPos = some border ∧ border.Splits before behind := by
  have valid : before.rawEndPos.IsValidForSlice text :=
    String.Pos.Raw.isValidForSlice_iff_exists_append.mpr ⟨before, behind, whole, rfl⟩
  exact ⟨text.pos before.rawEndPos valid,
    dif_pos (String.Pos.Raw.isValidForSlice_eq_true_iff.mpr valid), whole, rfl⟩

theorem exists_dropEnds? {bracket : Bracket} {text : String.Slice} {inner : List Char}
    (whole : text.copy.toList = bracket.opening :: (inner ++ [bracket.closing])) :
    ∃ rest, dropEnds? text = some rest ∧ rest.copy.toList = inner := by
  have parts := Bracket.eq_append_of_toList_eq whole
  obtain ⟨start, foundStart, splitsStart⟩ := exists_pos? (parts.trans (String.append_assoc ..))
  obtain ⟨stop, foundStop, splitsStop⟩ := exists_pos? parts
  obtain ⟨ordered, between⟩ :=
    String.Slice.copy_slice_eq_iff_splits.mpr ⟨_, _, splitsStart, splitsStop⟩
  have first : (String.singleton bracket.opening).rawEndPos = ⟨1⟩ := by
    simp [String.Pos.Raw.ext_iff]
  have last : (String.singleton bracket.opening ++ String.ofList inner).rawEndPos =
      ⟨text.utf8ByteSize - 1⟩ := by
    simp [String.Pos.Raw.ext_iff, ← String.Slice.utf8ByteSize_copy, parts]
  rw [first] at foundStart
  rw [last] at foundStop
  refine ⟨text.slice start stop ordered, ?_, by rw [between, String.toList_ofList]⟩
  simp only [dropEnds?, foundStart, foundStop, Option.bind_eq_bind, Option.bind_some]
  exact dif_pos ordered

/-- Not every text can lose its first byte. -/
example : (dropEnds? "é)".toSlice).isNone = true := by
  decide +kernel

theorem exists_unwrapSlice? {inner : List Char} (bare : isWrapped inner = false)
    {layers : List Bracket} {text : String.Slice}
    (whole : text.copy.toList = enclose layers inner) :
    ∃ rest, unwrapSlice? text = some rest ∧ rest.copy.toList = inner := by
  induction layers generalizing text with
  | nil =>
    rw [enclose_nil] at whole
    have plain : ¬isEnclosed text = true := by simp [isEnclosed_iff, whole, bare]
    exact ⟨text, by rw [unwrapSlice?_eq, if_neg plain], whole⟩
  | cons bracket layers ih =>
    rw [enclose_cons] at whole
    have enclosed : isEnclosed text = true :=
      isEnclosed_iff.mpr (isWrapped_iff_exists.mpr ⟨bracket, _, whole⟩)
    obtain ⟨next, dropped, inside⟩ := exists_dropEnds? whole
    obtain ⟨rest, found, left⟩ := ih inside
    refine ⟨rest, ?_, left⟩
    rw [unwrapSlice?_eq, if_pos enclosed, dropped, Option.bind_some, found]

theorem unwrapSlice?_toSlice (text : String) :
    (unwrapSlice? text.toSlice).map String.Slice.copy = some (unwrap text) := by
  obtain ⟨bare, layers, whole⟩ := unwrap_eq_iff.mp (Eq.refl (unwrap text))
  rw [isBare_iff] at bare
  have copied : text.toSlice.copy.toList = enclose layers (unwrap text).toList := by
    rw [String.copy_toSlice]
    exact whole
  obtain ⟨rest, found, left⟩ := exists_unwrapSlice? bare copied
  rw [found, Option.map_some, String.toList_inj.mp left]

/-- Unwrapping comes to an end on the bytes of every text, without a cut inside of a character. It
leaves the one bare text that is the whole text when layers of brackets are put around it, and so
nothing comes off what it has left. -/
theorem unwrap_eq_iff_layers (text : String) :
    (unwrapSlice? text.toSlice).map String.Slice.copy = some (unwrap text) ∧
    (∀ inner, unwrap text = inner ↔
      IsBare inner ∧ ∃ layers, text.toList = enclose layers inner.toList) ∧
    unwrap (unwrap text) = unwrap text := by
  have bare : IsBare (unwrap text) := (unwrap_eq_iff.mp (Eq.refl (unwrap text))).1
  refine ⟨unwrapSlice?_toSlice text, fun inner => unwrap_eq_iff, ?_⟩
  exact unwrap_eq_iff.mpr ⟨bare, [], (enclose_nil _).symm⟩

example : unwrap "[(é) (])]" = "é) (]" := by
  cbv

end ProfileTrace.Text
