import ProfileTrace.Proofs.Cursor.Plain
import ProfileTrace.Proofs.Record.CodeLines
import ProfileTrace.Proofs.Record.Streaming
import ProfileTrace.Proofs.Text.Words

/-! Frame lines whose module is the symbol map of a program. The module proper is the first word in
square brackets, and the symbol is all that follows it on the line; without such a word the path of
the map stays the module. -/

namespace ProfileTrace
open Cursor Text

def Bracketed (word : List UInt8) : Prop := Wrapped '[' ']' (trimChars (word.map charOfByte))

instance : DecidablePred Bracketed := fun word =>
  inferInstanceAs (Decidable (Wrapped '[' ']' (trimChars (word.map charOfByte))))

structure IsPlainWord (word : List UInt8) : Prop where
  noSpace : 0x20 ∉ word
  bare : ¬Bracketed word

instance : DecidablePred IsPlainWord := fun word =>
  decidable_of_iff (0x20 ∉ word ∧ ¬Bracketed word)
    ⟨fun ⟨noSpace, bare⟩ => ⟨noSpace, bare⟩, fun ⟨noSpace, bare⟩ => ⟨noSpace, bare⟩⟩

structure MapLine extends CodeLine where
  mapped : toBytes ".map" <:+ path

/-- A symbol with a word in square brackets, which stands before all that belongs to it. -/
structure MapSymbol where
  before : List (List UInt8)
  module : List UInt8
  name : List UInt8
  spaces : Nat
  plain : ∀ word ∈ before, IsPlainWord word
  named : module ≠ []
  noSpace : 0x20 ∉ module
  noSlash : module.getLast? ≠ some 0x2F
  round : ¬Wrapped 0x28 0x29 module
  square : ¬Wrapped 0x5B 0x5D module

def MapSymbol.text (symbol : MapSymbol) : List UInt8 :=
  symbol.before.flatMap (· ++ [0x20]) ++
    (0x5B :: (symbol.module ++ [0x5D, 0x20]) ++ (symbol.name ++ List.replicate symbol.spaces 0x20))

/-! ### Splitting the symbol -/

theorem not_mem_map_charOfByte {b : UInt8} {bytes : List UInt8} (none : b ∉ bytes) :
    charOfByte b ∉ bytes.map charOfByte := by
  intro inside
  obtain ⟨other, among, same⟩ := List.mem_map.mp inside
  exact none (charOfByte_injective same ▸ among)

theorem wrapped_map {opening closing : UInt8} {bytes : List UInt8} :
    Wrapped (charOfByte opening) (charOfByte closing) (bytes.map charOfByte) ↔
      Wrapped opening closing bytes := by
  constructor
  · rintro ⟨inner, same⟩
    obtain ⟨first, rest, rfl, front, behind⟩ := List.map_eq_cons_iff.mp same
    obtain ⟨middle, last, rfl, -, back⟩ := List.map_eq_append_iff.mp behind
    obtain ⟨final, rfl, final_eq⟩ := List.map_eq_singleton_iff.mp back
    rw [charOfByte_injective front, charOfByte_injective final_eq]
    exact ⟨middle, rfl⟩
  · rintro ⟨inner, rfl⟩
    exact ⟨inner.map charOfByte, by simp⟩

namespace FrameLine

theorem isBracketedToken_iff {token : List Char} :
    isBracketedToken token = true ↔ Wrapped '[' ']' (trimChars token) := by
  rw [isBracketedToken, Bool.and_eq_true, isWrapped_iff]
  constructor
  · rintro ⟨first, ⟨inner, same⟩ | square⟩
    · simp [same] at first
    · exact square
  · rintro ⟨inner, same⟩
    exact ⟨by simp [same], Or.inr ⟨inner, same⟩⟩

end FrameLine

theorem plain_words {words : List (List UInt8)} (plain : ∀ word ∈ words, IsPlainWord word) :
    (∀ word ∈ words.map (List.map charOfByte), ' ' ∉ word) ∧
      ∀ word ∈ words.map (List.map charOfByte), FrameLine.isBracketedToken word = false := by
  constructor
  · intro word among
    obtain ⟨bytes, inside, rfl⟩ := List.mem_map.mp among
    exact not_mem_map_charOfByte (plain bytes inside).noSpace
  · intro word among
    obtain ⟨bytes, inside, rfl⟩ := List.mem_map.mp among
    exact Bool.eq_false_iff.mpr fun bracketed =>
      (plain bytes inside).bare (FrameLine.isBracketedToken_iff.mp bracketed)

theorem MapSymbol.map_text (symbol : MapSymbol) :
    symbol.text.map charOfByte =
      (symbol.before.map (List.map charOfByte)).flatMap (· ++ [' ']) ++
        ('[' :: (symbol.module.map charOfByte ++ [']']) ++ ' ' ::
          (symbol.name.map charOfByte ++ List.replicate symbol.spaces ' ')) := by
  have space : charOfByte 0x20 = ' ' := rfl
  have opening : charOfByte 0x5B = '[' := rfl
  have closing : charOfByte 0x5D = ']' := rfl
  simp [text, List.map_flatMap, List.flatMap_map, space, opening, closing]

/-- A word in square brackets names the module, and what follows it is the symbol. -/
theorem MapSymbol.splitMapSymbol_eq (symbol : MapSymbol) (path : String) :
    FrameLine.splitMapSymbol (ofBytes symbol.text) path =
      (ofBytes symbol.module,
        if trim (ofBytes symbol.name) = "" then path else trim (ofBytes symbol.name)) := by
  have noSpace : ' ' ∉ '[' :: (symbol.module.map charOfByte ++ [']']) := by
    have module : ' ' ∉ symbol.module.map charOfByte := not_mem_map_charOfByte symbol.noSpace
    simp [module]
  obtain ⟨words, bare⟩ := plain_words symbol.plain
  have passed : ∀ word ∈ symbol.before.map (List.map charOfByte),
      (!FrameLine.isBracketedToken word) = true := by
    intro word among
    rw [bare word among, Bool.not_false]
  have bracketed : FrameLine.isBracketedToken ('[' :: (symbol.module.map charOfByte ++ [']'])) =
      true := by
    rw [FrameLine.isBracketedToken_iff, trimChars_wrapped (by decide) (by decide)]
    exact ⟨_, rfl⟩
  have unwrapped : unwrapChars (symbol.module.map charOfByte) = symbol.module.map charOfByte :=
    Unwraps.eq (.bare (fun round => symbol.round (wrapped_map.mp round))
      fun square => symbol.square (wrapped_map.mp square))
  rw [FrameLine.splitMapSymbol, toList_ofBytes, map_text, pieces_flatMap_append words,
    pieces_eq_splitOn, List.splitOn_append_cons_self_of_not_mem noSpace,
    List.dropWhile_append_of_pos passed, List.dropWhile_cons_of_neg (by simp [bracketed])]
  simp only [List.intercalate_splitOn, trimChars_append_replicate (show isBlank ' ' = true from rfl),
    trimChars_wrapped (show isBlank '[' = false from rfl) (show isBlank ']' = false from rfl),
    unwrapChars_wrapped (show isBracketPair '[' ']' = true from rfl), unwrapped]
  have missing : trim (ofBytes symbol.name) = "" ↔ trimChars (symbol.name.map charOfByte) = [] := by
    rw [← String.toList_eq_nil_iff, toList_trim, toList_ofBytes]
  simp only [List.isEmpty_iff, missing]
  rw [trim, toList_ofBytes]
  rfl

theorem splitMapSymbol_of_plain {words : List (List UInt8)}
    (plain : ∀ word ∈ words, IsPlainWord word) (spaces : Nat) (path : String) :
    FrameLine.splitMapSymbol
        (ofBytes ([0x20].intercalate words ++ List.replicate spaces 0x20)) path =
      (path, unwrap (trim (ofBytes ([0x20].intercalate words)))) := by
  have space : charOfByte 0x20 = ' ' := rfl
  obtain ⟨noSpace, bare⟩ := plain_words plain
  have joined : ([0x20].intercalate words).map charOfByte =
      [' '].intercalate (words.map (List.map charOfByte)) :=
    map_intercalate charOfByte [0x20] words
  have none : (pieces ' ' ([' '].intercalate (words.map (List.map charOfByte)) ++
      List.replicate spaces ' ')).dropWhile (fun word => !FrameLine.isBracketedToken word) = [] := by
    rw [List.dropWhile_eq_nil_iff]
    intro piece among
    have empty : FrameLine.isBracketedToken [] = false := rfl
    have word : piece ∈ words.map (List.map charOfByte) ∨ piece = [] := by
      rcases mem_pieces_append_replicate among with inside | rfl
      · exact mem_pieces_intercalate noSpace inside
      · exact Or.inr rfl
    rcases word with inside | rfl
    · rw [bare piece inside, Bool.not_false]
    · rw [empty, Bool.not_false]
  have trimmed : trim (ofBytes ([0x20].intercalate words ++ List.replicate spaces 0x20)) =
      trim (ofBytes ([0x20].intercalate words)) := by
    rw [trim, trim, toList_ofBytes, toList_ofBytes, List.map_append, List.map_replicate, space,
      trimChars_append_replicate (by decide)]
  rw [FrameLine.splitMapSymbol, trimmed, toList_ofBytes, List.map_append, joined,
    List.map_replicate, space]
  simp only [none]

namespace MapLine

theorem getLast?_path (line : MapLine) : line.path.getLast? = some 0x70 := by
  obtain ⟨stem, path⟩ := line.mapped
  rw [← path, List.getLast?_append_of_ne_nil stem (by decide)]
  decide

theorem unwrap_column (line : MapLine) : unwrap (trim (ofBytes line.column)) = ofBytes line.path := by
  have noBracket : ∀ opening closing : UInt8, closing ≠ 0x70 →
      ¬Wrapped (charOfByte opening) (charOfByte closing) (line.path.map charOfByte) := by
    intro opening closing other wrapped
    obtain ⟨inner, path⟩ := wrapped_map.mp wrapped
    have last := line.getLast?_path
    rw [path, ← List.cons_append, List.getLast?_concat] at last
    exact other (Option.some.inj last)
  have bare : unwrapChars (line.path.map charOfByte) = line.path.map charOfByte :=
    Unwraps.eq (.bare (noBracket 0x28 0x29 (by decide)) (noBracket 0x5B 0x5D (by decide)))
  have column : line.column.map charOfByte = '(' :: (line.path.map charOfByte ++ [')']) := by
    rw [CodeLine.column, List.map_cons, List.map_append]
    rfl
  rw [unwrap, toList_trim, toList_ofBytes, column, trimChars_wrapped (by decide) (by decide),
    unwrapChars_wrapped rfl, bare]
  rfl

theorem hasSuffix_path (line : MapLine) : hasSuffix (ofBytes line.path) ".map" = true := by
  obtain ⟨stem, path⟩ := line.mapped
  rw [hasSuffix, toList_ofBytes, ← path, List.map_append, map_charOfByte_toBytes (by decide),
    List.isSuffixOf_iff_suffix]
  exact List.suffix_append _ _

theorem codeFrame_eq (line : MapLine) {module name : String}
    (split : FrameLine.splitMapSymbol (ofBytes line.symbol) (ofBytes line.path) = (module, name)) :
    FrameLine.codeFrame (ofBytes line.address) (ofBytes line.symbol) (ofBytes line.column) =
      .code (ofBytes line.address) (baseName module) name := by
  simp only [FrameLine.codeFrame, line.unwrap_column, line.hasSuffix_path, if_true, split]

/-- A frame line of a symbol map is read to its end. Its first word in square brackets names the
module, and the symbol is what follows the word, or the path of the map where nothing does. Without
such a word the path names the module. -/
theorem read_of_any_line {content : List UInt8} {c : StreamCursor}
    (settled : StreamCursor.Settled content c) (line : MapLine) {rest : List UInt8}
    (ahead : content.drop c.position = line.text ++ rest) (ends : EndsRun (· != 0x0A) rest) :
    (∀ symbol : MapSymbol, line.symbol = symbol.text → ∃ part, IsLastPart symbol.module part ∧
      (FrameLine.read c).1 = .entry (.code (ofBytes line.address) (ofBytes part)
        (if trim (ofBytes symbol.name) = "" then ofBytes line.path
          else trim (ofBytes symbol.name)))) ∧
    (∀ (words : List (List UInt8)) (spaces : Nat), (∀ word ∈ words, IsPlainWord word) →
      line.symbol = [0x20].intercalate words ++ List.replicate spaces 0x20 →
      ∃ part name, IsLastPart line.path part ∧
        Unwraps (trimChars (([0x20].intercalate words).map charOfByte)) name ∧
        (FrameLine.read c).1 =
          .entry (.code (ofBytes line.address) (ofBytes part) (String.ofList name))) ∧
    StreamCursor.Settled content (FrameLine.read c).2 ∧
    content.drop (FrameLine.read c).2.position = rest := by
  obtain ⟨value, after, moved⟩ := settled.performed
    (FrameLine.respects_read _) (line.read_eq (c := c.overText content) ahead ends)
  have place : (FrameLine.read c).2.position = c.position + line.text.length :=
    congrArg PlainCursor.position moved
  refine ⟨fun symbol whole => ?_, fun words spaces plain whole => ?_, after, ?_⟩
  · obtain ⟨part, last⟩ := exists_isLastPart symbol.module
    have split := symbol.splitMapSymbol_eq (ofBytes line.path)
    rw [← whole] at split
    refine ⟨part, last, ?_⟩
    rw [value, line.codeFrame_eq split, last.baseName_eq (last.ne_nil symbol.named symbol.noSlash)]
  · obtain ⟨part, last⟩ := exists_isLastPart line.path
    have split := splitMapSymbol_of_plain plain spaces (ofBytes line.path)
    rw [← whole] at split
    refine ⟨part, _, last, unwraps_unwrapChars _, ?_⟩
    have path := line.getLast?_path
    have named : line.path ≠ [] := by
      intro none
      simp [none] at path
    rw [value, line.codeFrame_eq split, last.baseName_eq (last.ne_nil named (by simp [path])),
      unwrap, toList_trim, toList_ofBytes]
  · rw [place, ← List.drop_drop, ahead, List.drop_left]

end MapLine

/-- Compiled code of a library, with brackets in its name. -/
def MapLine.compiled : MapLine where
  indent := toBytes "\t "
  address := toBytes "7f3a"
  symbol := toBytes "jit [lib/a.so] run(int) [hot] "
  path := toBytes "/tmp/perf-1.map"
  blank := by decide
  named := by decide
  token := by decide
  unmarked := by decide
  noReturn := by decide
  noFeed := by decide
  noBracket := by decide
  mapped := by decide

def MapSymbol.compiled : MapSymbol where
  before := [toBytes "jit"]
  module := toBytes "lib/a.so"
  name := toBytes "run(int) [hot]"
  spaces := 1
  plain := by decide
  named := by decide
  noSpace := by decide
  noSlash := by decide
  round := by decide
  square := by decide

/-- A symbol of two words in brackets, neither of which is in brackets by itself. -/
def MapLine.plain : MapLine where
  indent := []
  address := toBytes "0"
  symbol := toBytes "[jit code] "
  path := toBytes "perf-1.map"
  blank := by decide
  named := by decide
  token := by decide
  unmarked := by decide
  noReturn := by decide
  noFeed := by decide
  noBracket := by decide
  mapped := by decide

def slowLine (line : MapLine) : Reader := .slow (line.text ++ [0x0A]) 0

def slowCursor (line : MapLine) : StreamCursor := .ofReader (slowLine line) 0

theorem MapLine.read_of_any_line_slowCursor :
    (StreamCursor.Settled (slowLine .compiled).content (slowCursor .compiled) ∧
      (FrameLine.read (slowCursor .compiled)).1 =
        .entry (.code "7f3a" "a.so" "run(int) [hot]")) ∧
    (StreamCursor.Settled (slowLine .plain).content (slowCursor .plain) ∧
      (FrameLine.read (slowCursor .plain)).1 = .entry (.code "0" "perf-1.map" "jit code")) := by
  have calm : ∀ line, (slowLine line).Faultless := fun _ => Reader.faultless_slow _ _
  have settled : ∀ line, StreamCursor.Settled (slowLine line).content (slowCursor line) :=
    fun line => StreamCursor.settled_ofReader (calm line) rfl 0 0
  have ahead : ∀ line, (slowLine line).content.drop (slowCursor line).position =
      line.text ++ [0x0A] := by
    intro line
    rw [slowCursor, StreamCursor.position_ofReader (calm line)]
    rfl
  have ends : EndsRun (· != 0x0A) [0x0A] := .of_head (by decide) _
  refine ⟨⟨settled _, ?_⟩, settled _, ?_⟩
  · obtain ⟨bracketed, -⟩ := read_of_any_line (settled .compiled) .compiled (ahead .compiled) ends
    obtain ⟨part, last, found⟩ := bracketed .compiled (by decide)
    rw [found, ← last.baseName_eq (last.ne_nil (by decide) (by decide))]
    decide
  · obtain ⟨-, plain, -⟩ := read_of_any_line (settled .plain) .plain (ahead .plain) ends
    obtain ⟨part, name, last, unwraps, found⟩ :=
      plain [toBytes "[jit", toBytes "code]"] 1 (by decide) (by decide)
    have inside : Unwraps ('[' :: ("jit code".toList ++ [']'])) "jit code".toList :=
      .layer rfl (.bare (by decide) (by decide))
    have same : name = "jit code".toList := unwraps.eq.symm.trans inside.eq
    rw [found, same, ← last.baseName_eq (last.ne_nil (by decide) (by decide))]
    decide

end ProfileTrace
