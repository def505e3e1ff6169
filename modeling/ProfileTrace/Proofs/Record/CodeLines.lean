import ProfileTrace.Frame.Line
import ProfileTrace.Proofs.Record.Reads

/-! Lines of a stack put together from an address, a symbol and the path of a module. Reading such a
line finds its columns again, whatever brackets the symbol has, and ends where the line does. -/

namespace ProfileTrace
open Cursor Text
open TextCursor (current_of_rest rest_skip_of_append skip_skip)

/-! ### Spaces in front of the symbol -/

namespace FrameLine

theorem isBracketedToken_cons {c : Char} (blank : isBlank c = true) (token : List Char) :
    isBracketedToken (c :: token) = isBracketedToken token := by
  rw [isBracketedToken, trimChars_cons blank]
  rfl

/-- A space in front of the symbol makes no difference: it is an empty word, or is trimmed. -/
theorem splitMapSymbol_cons {b : UInt8} (space : isSpaceByte b = true) (symbol : List UInt8)
    (path : String) :
    splitMapSymbol (ofBytes (b :: symbol)) path = splitMapSymbol (ofBytes symbol) path := by
  have blank := isBlank_of_isSpaceByte space
  have empty : isBracketedToken [] = false := rfl
  rw [splitMapSymbol, splitMapSymbol, trim_ofBytes_cons space, toList_ofBytes, toList_ofBytes,
    List.map_cons, pieces]
  by_cases separator : charOfByte b = ' '
  · rw [if_pos separator, List.dropWhile_cons_of_pos (by simp [empty])]
  · rw [if_neg separator]
    cases pieces ' ' (symbol.map charOfByte) with
    | nil => simp [isBracketedToken_cons blank, empty]
    | cons word words =>
      simp only [List.dropWhile_cons, isBracketedToken_cons blank]
      cases isBracketedToken word with
      | true => simp [trimChars_cons blank]
      | false => simp

theorem codeFrame_dropWhile (address : String) (symbol : List UInt8) (column : String) :
    codeFrame address (ofBytes (symbol.dropWhile isSpaceByte)) column =
      codeFrame address (ofBytes symbol) column := by
  induction symbol with
  | nil => rfl
  | cons b symbol ih =>
    cases space : isSpaceByte b with
    | false => rw [List.dropWhile_cons_of_neg (by simp [space])]
    | true =>
      rw [List.dropWhile_cons_of_pos space, ih]
      simp only [codeFrame, splitMapSymbol_cons space, trim_ofBytes_cons space]

end FrameLine

/-! ### Lines -/

structure CodeLine where
  indent : List UInt8
  address : List UInt8
  /-- All that stands between the space after the address and the path in brackets. -/
  symbol : List UInt8
  path : List UInt8
  blank : ∀ b ∈ indent, isSpaceByte b = true
  named : address ≠ []
  token : ∀ b ∈ address, FrameLine.isFieldEnd b = false
  unmarked : address.head? ≠ some cutMarker
  noReturn : address.head? ≠ some 0x0D
  noFeed : 0x0A ∉ symbol ++ path
  noBracket : 0x28 ∉ path

namespace CodeLine

def column (line : CodeLine) : List UInt8 := 0x28 :: (line.path ++ [0x29])

def text (line : CodeLine) : List UInt8 :=
  line.indent ++ (line.address ++ (0x20 :: (line.symbol ++ line.column)))

theorem noFeed_column (line : CodeLine) : 0x0A ∉ line.column := by
  have noFeed := line.noFeed
  rw [List.mem_append, not_or] at noFeed
  simp [column, noFeed.2]

theorem endsRun_symbol (line : CodeLine) {symbol : List UInt8} (starts : EndsRun isSpaceByte symbol)
    (rest : List UInt8) : EndsRun isSpaceByte (symbol ++ (line.column ++ rest)) := by
  cases symbol with
  | nil => exact .of_head (by decide) _
  | cons b symbol => exact .of_head (starts b rfl) _

theorem readCode_eq (line : CodeLine) {c : TextCursor} {rest : List UInt8}
    (ahead : c.rest = line.address ++ (0x20 :: (line.symbol ++ (line.column ++ rest))))
    (ends : EndsRun (· != 0x0A) rest) :
    FrameLine.readCode c =
      (FrameLine.codeFrame (ofBytes line.address) (ofBytes line.symbol) (ofBytes line.column),
        c.skip (line.address ++ (0x20 :: (line.symbol ++ line.column))).length) := by
  obtain ⟨blanks, symbol, parts, all, starts⟩ := exists_run isSpaceByte line.symbol
  have frame := FrameLine.codeFrame_dropWhile (ofBytes line.address) line.symbol
    (ofBytes line.column)
  rw [parts, starts.dropWhile_append all, ← parts] at frame
  have noBracket : 0x28 ∉ line.path ++ [0x29] := by simp [line.noBracket]
  have noFeed : 0x0A ∉ symbol ++ line.column := by
    have all := line.noFeed
    rw [parts, List.mem_append, List.mem_append, not_or, not_or] at all
    simp [all.1.2, line.noFeed_column]
  rw [parts, List.append_assoc] at ahead
  have address : readUntil FrameLine.isFieldEnd c = (line.address, c.skip line.address.length) :=
    readUntil_eq_of_run ahead line.token (.of_head (by decide) _)
  have atSpace := rest_skip_of_append ahead
  rw [← List.cons_append] at atSpace
  have blank : ∀ b ∈ 0x20 :: blanks, isSpaceByte b = true :=
    List.forall_mem_cons.mpr ⟨by decide, all⟩
  have space := skipSpaces_eq_of_run atSpace blank (line.endsRun_symbol starts rest)
  have atSymbol := rest_skip_of_append atSpace
  rw [← List.append_assoc] at atSymbol
  have before := readUntilLastOnLine_eq_of_line atSymbol noBracket noFeed ends
  rw [List.append_assoc] at atSymbol
  have atColumn := rest_skip_of_append atSymbol
  have passed : ∀ b ∈ line.column, (b == 0x0A) = false := by
    intro b inside
    have other : b ≠ 0x0A := fun same => line.noFeed_column (same ▸ inside)
    simpa using other
  have column : readUntil (· == 0x0A) _ = (line.column, _) :=
    readUntil_eq_of_run atColumn passed ends
  have length : line.address.length + ((0x20 :: blanks).length + (symbol.length +
      line.column.length)) = (line.address ++ (0x20 :: (line.symbol ++ line.column))).length := by
    rw [parts]
    simp only [List.length_append, List.length_cons]
    omega
  simp only [FrameLine.readCode, address, space, before, column, frame]
  rw [skip_skip, skip_skip, skip_skip, length]

theorem read_eq (line : CodeLine) {c : TextCursor} {rest : List UInt8}
    (ahead : c.rest = line.text ++ rest) (ends : EndsRun (· != 0x0A) rest) :
    FrameLine.read c =
      (.entry (FrameLine.codeFrame (ofBytes line.address) (ofBytes line.symbol)
          (ofBytes line.column)),
        c.skip line.text.length) := by
  obtain ⟨b, others, address⟩ := List.exists_cons_of_ne_nil line.named
  have token : FrameLine.isFieldEnd b = false := line.token b (by simp [address])
  have unmarked : b ≠ cutMarker := by simpa [address] using line.unmarked
  have noReturn : b ≠ 0x0D := by simpa [address] using line.noReturn
  simp only [FrameLine.isFieldEnd, Bool.or_eq_false_iff, beq_eq_false_iff_ne] at token
  obtain ⟨noSpace, noFeed⟩ := token
  rw [text, List.append_assoc] at ahead
  have indent := skipSpaces_eq_of_run ahead line.blank (by rw [address]; exact .of_head noSpace _)
  have atAddress := rest_skip_of_append ahead
  rw [List.append_assoc, List.cons_append, List.append_assoc] at atAddress
  have code := line.readCode_eq atAddress ends
  rw [address, List.cons_append] at atAddress
  obtain ⟨first, within⟩ := current_of_rest atAddress
  rw [skip_skip, ← List.length_append] at code
  simp only [FrameLine.read, indent, first, within, code]
  simp [unmarked, noFeed, noReturn, text]

end CodeLine

end ProfileTrace
