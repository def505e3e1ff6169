import Mathlib.Tactic.MkIffOfInductiveProp
import ProfileTrace.Proofs.Record.WellFormed
import ProfileTrace.Proofs.Text.Written

/-! Events as they are printed: a header line, one line for each frame of code and an empty line.
A well-formed event is one whose fields hold none of the bytes that end them. -/

namespace ProfileTrace
open Cursor Text

/-! ### What is printed -/

structure WrittenFrame where
  address : String
  symbol : String
  module : String

def WrittenFrame.line (written : WrittenFrame) : String :=
  "\t" ++ written.address ++ " " ++ written.symbol ++ " (" ++ written.module ++ ")"

def WrittenFrame.frame (written : WrittenFrame) : Frame :=
  .code written.address written.module written.symbol

/-- An event, as it is printed: its command by words, and its time as text with the seconds that
the text stands for. -/
structure WrittenEvent where
  command : List String
  pid : Nat
  tid : Nat
  cpu : Nat
  time : String
  seconds : Seconds
  timeProperty : Nat
  name : String
  details : String
  frames : List WrittenFrame

namespace WrittenEvent

def headline (written : WrittenEvent) : String :=
  " ".intercalate written.command ++ " " ++ toString written.pid ++ "/" ++ toString written.tid ++
    " [" ++ toString written.cpu ++ "] " ++ written.time ++ ": " ++
    toString written.timeProperty ++ " " ++ written.name ++ ": " ++ written.details

def text (written : WrittenEvent) : String :=
  written.headline ++ "\n" ++
    String.join (written.frames.map fun written => written.line ++ "\n") ++ "\n"

def isSwitch (written : WrittenEvent) : Bool := hasPrefix written.details Switch.detailsMark

def switch (written : WrittenEvent) : Switch :=
  (Switch.read ({ rest := toBytes written.details } : TextCursor)).1

def event (written : WrittenEvent) : Event where
  kind := if written.isSwitch then .scheduler else .cpu
  command := " ".intercalate written.command
  pid := written.pid
  tid := written.tid
  cpu := written.cpu
  time := written.seconds
  timeProperty := written.timeProperty
  name := written.name
  details := written.details
  switch := if written.isSwitch then some written.switch else none
  frames := written.frames.map WrittenFrame.frame ++
    [.thread written.tid, .process (" ".intercalate written.command)]
  truncated := false

end WrittenEvent

/-! ### What can be printed -/

@[mk_iff]
structure IsWord (text : String) : Prop where
  latin : IsLatin text
  nonempty : text.toList ≠ []
  solid : ∀ c ∈ text.toList, c ≠ ' ' ∧ c ≠ '\t' ∧ c ≠ '\n'

instance : DecidablePred IsWord := fun text => decidable_of_iff' _ (isWord_iff text)

@[mk_iff]
structure IsColumn (text : String) : Prop where
  latin : IsLatin text
  noFeed : '\n' ∉ text.toList
  trimmed : trim text = text

instance : DecidablePred IsColumn := fun text => decidable_of_iff' _ (isColumn_iff text)

/-- The first bracket of a line's last pair opens its module. A module that is the map of a
running program's symbols must not find the name of another module in the symbol. -/
@[mk_iff]
structure WrittenFrame.WellFormed (written : WrittenFrame) : Prop where
  address : IsWord written.address
  noMarker : written.address.toList.head? ≠ some '\x01'
  noReturn : written.address.toList.head? ≠ some '\r'
  symbol : IsColumn written.symbol
  symbolPlain : unwrap written.symbol = written.symbol
  latin : IsLatin written.module
  noFeed : '\n' ∉ written.module.toList
  noBracket : '(' ∉ written.module.toList
  modulePlain : unwrap written.module = written.module
  noDirectory : baseName written.module = written.module
  mapped : hasSuffix written.module ".map" = true →
    ∀ token ∈ pieces ' ' written.symbol.toList, FrameLine.isBracketedToken token = false

instance : DecidablePred WrittenFrame.WellFormed :=
  fun written => decidable_of_iff' _ (WrittenFrame.wellFormed_iff written)

def markChars : List Char := ['\u00EF', '\u00BB', '\u00BF']

@[mk_iff]
structure WrittenEvent.WellFormed (written : WrittenEvent) : Prop where
  words : ∀ word ∈ written.command, IsWord word ∧ word.toList.head?.all (!·.isDigit) = true
  begins : ∃ word ∈ written.command.head?, word.toList.head? ≠ some '\r' ∧
    word.toList.head? ≠ some '\x0C' ∧ ¬markChars <+: word.toList
  pid : written.pid < 0x80000000
  tid : written.tid < 0x80000000
  cpu : written.cpu < 0x80000000
  time : IsColumn written.time
  timeNoColon : ':' ∉ written.time.toList
  seconds : Seconds.ofText? written.time = some written.seconds
  timeProperty : written.timeProperty < 0x8000000000000000
  name : IsColumn written.name
  nameNoColon : ':' ∉ written.name.toList
  details : IsColumn written.details
  frames : ∀ frame ∈ written.frames, frame.WellFormed

instance : DecidablePred WrittenEvent.WellFormed :=
  fun written => decidable_of_iff' _ (WrittenEvent.wellFormed_iff written)

/-! ### Bytes of what is printed -/

theorem IsWord.noBlank {text : String} (word : IsWord text) {b : UInt8}
    (inside : b ∈ toBytes text) :
    Header.isTokenEnd b = false := by
  obtain ⟨noSpace, noTab, noFeed⟩ := word.solid _ ((mem_toBytes word.latin).mp inside)
  have other : ∀ {a : UInt8}, charOfByte b ≠ charOfByte a → b ≠ a :=
    fun different same => different (congrArg charOfByte same)
  have space : b ≠ 0x20 := other noSpace
  have tab : b ≠ 0x09 := other noTab
  have feed : b ≠ 0x0A := other noFeed
  simp [Header.isTokenEnd, isSpaceByte, space, tab, feed]

theorem IsWord.bytes_ne_nil {text : String} (word : IsWord text) : toBytes text ≠ [] :=
  fun none => word.nonempty (List.map_eq_nil_iff.mp none)

theorem IsWord.noFeed {text : String} (word : IsWord text) : 0x0A ∉ toBytes text :=
  fun inside => by simpa [Header.isTokenEnd] using word.noBlank inside

theorem IsColumn.noFeedByte {text : String} (column : IsColumn text) : 0x0A ∉ toBytes text :=
  fun inside => column.noFeed ((mem_toBytes column.latin).mp inside)

theorem IsColumn.noSpace {text : String} (column : IsColumn text) {b : UInt8}
    (first : (toBytes text).head? = some b) : isSpaceByte b = false := by
  obtain ⟨others, bytes⟩ := List.head?_eq_some_iff.mp first
  have chars := map_charOfByte_toBytes column.latin
  have trimmed := congrArg String.toList column.trimmed
  rw [toList_trim, ← chars, bytes, List.map_cons] at trimmed
  refine Bool.eq_false_iff.mpr fun space => ?_
  exact absurd (isBlank_of_isSpaceByte space) (by simp [isBlank_head_eq_false trimmed])

theorem noFeed_decimal (n : Nat) : 0x0A ∉ decimal n := by
  intro inside
  have digit := isDigitByte_of_mem_decimal inside
  revert digit
  decide

namespace WrittenFrame

def fromModule (written : WrittenFrame) : List UInt8 := 0x28 :: (toBytes written.module ++ [0x29])

def fromSymbol (written : WrittenFrame) : List UInt8 :=
  0x20 :: (toBytes written.symbol ++ 0x20 :: written.fromModule)

theorem toBytes_line (written : WrittenFrame) :
    toBytes written.line = 0x09 :: (toBytes written.address ++ written.fromSymbol) := by
  have tab : toBytes "\t" = [0x09] := rfl
  have space : toBytes " " = [0x20] := rfl
  have opening : toBytes " (" = [0x20, 0x28] := rfl
  have closing : toBytes ")" = [0x29] := rfl
  simp only [line, fromSymbol, fromModule, toBytes_append, tab, space, opening, closing,
    List.append_assoc, List.cons_append, List.nil_append]

section
variable {written : WrittenFrame}

theorem WellFormed.noFeed_fromModule (wellFormed : written.WellFormed) :
    0x0A ∉ written.fromModule := by
  have module : 0x0A ∉ toBytes written.module :=
    fun inside => wellFormed.noFeed ((mem_toBytes wellFormed.latin).mp inside)
  simp [fromModule, module]

theorem WellFormed.noFeed_line (wellFormed : written.WellFormed) :
    0x0A ∉ toBytes written.line := by
  have address := wellFormed.address.noFeed
  have symbol := wellFormed.symbol.noFeedByte
  simp [toBytes_line, fromSymbol, address, symbol, wellFormed.noFeed_fromModule]

theorem WellFormed.first_address (wellFormed : written.WellFormed) :
    ∃ b rest, toBytes written.address = b :: rest ∧ isSpaceByte b = false ∧ b ≠ 0x0A ∧
      b ≠ cutMarker ∧ b ≠ 0x0D := by
  obtain ⟨b, rest, bytes⟩ := List.exists_cons_of_ne_nil wellFormed.address.bytes_ne_nil
  have noBlank := wellFormed.address.noBlank (b := b) (by simp [bytes])
  have first : (toBytes written.address).head? = some b := by rw [bytes]; rfl
  simp only [Header.isTokenEnd, Bool.or_eq_false_iff, beq_eq_false_iff_ne] at noBlank
  exact ⟨b, rest, bytes, noBlank.1, noBlank.2,
    head?_toBytes_ne wellFormed.address.latin wellFormed.noMarker first,
    head?_toBytes_ne wellFormed.address.latin wellFormed.noReturn first⟩

theorem WellFormed.isStackLine (wellFormed : written.WellFormed) :
    IsStackLine (toBytes written.line) where
  noFeed := wellFormed.noFeed_line
  begins := ⟨0x09, by rw [toBytes_line]; rfl, by decide, by decide⟩
  noMarker := by
    obtain ⟨b, rest, bytes, noSpace, -, noMarker, -⟩ := wellFormed.first_address
    rw [toBytes_line, bytes, List.dropWhile_cons_of_pos (by decide), List.cons_append,
      List.dropWhile_cons_of_neg (by simp [noSpace])]
    simpa using noMarker

end

end WrittenFrame

namespace WrittenEvent

def fromDetails (written : WrittenEvent) : List UInt8 := 0x20 :: toBytes written.details

def fromName (written : WrittenEvent) : List UInt8 :=
  0x20 :: (toBytes written.name ++ 0x3A :: written.fromDetails)

def fromProperty (written : WrittenEvent) : List UInt8 :=
  0x20 :: (decimal written.timeProperty ++ written.fromName)

def fromTime (written : WrittenEvent) : List UInt8 :=
  0x20 :: (toBytes written.time ++ 0x3A :: written.fromProperty)

def fromCpu (written : WrittenEvent) : List UInt8 :=
  0x20 :: 0x5B :: (decimal written.cpu ++ 0x5D :: written.fromTime)

def fromTid (written : WrittenEvent) : List UInt8 :=
  0x2F :: (decimal written.tid ++ written.fromCpu)

def fromPid (written : WrittenEvent) : List UInt8 := decimal written.pid ++ written.fromTid

theorem toBytes_headline (written : WrittenEvent) :
    toBytes written.headline =
      [0x20].intercalate (written.command.map toBytes) ++ [0x20] ++ written.fromPid := by
  have space : toBytes " " = [0x20] := rfl
  have slash : toBytes "/" = [0x2F] := rfl
  have opening : toBytes " [" = [0x20, 0x5B] := rfl
  have closing : toBytes "] " = [0x5D, 0x20] := rfl
  have colon : toBytes ": " = [0x3A, 0x20] := rfl
  have number : ∀ n : Nat, toBytes (toString n) = decimal n := fun _ => rfl
  simp only [headline, fromPid, fromTid, fromCpu, fromTime, fromProperty, fromName, fromDetails,
    toBytes_append, toBytes_intercalate, space, slash, opening, closing, colon, number,
    List.append_assoc, List.cons_append, List.nil_append]

def layout (written : WrittenEvent) : RecordLayout where
  header := toBytes written.headline
  lines := written.frames.map fun frame => toBytes frame.line

theorem toBytes_text (written : WrittenEvent) : toBytes written.text = written.layout.bytes := by
  have feed : toBytes "\n" = [0x0A] := rfl
  simp only [text, layout, RecordLayout.bytes, toBytes_append, toBytes_join, feed, List.flatMap_map,
    List.append_assoc, List.cons_append, List.nil_append]

theorem WellFormed.first_word {written : WrittenEvent} (wellFormed : written.WellFormed) :
    ∃ word rest, toBytes written.headline = toBytes word ++ 0x20 :: rest ∧ IsWord word ∧
      word.toList.head? ≠ some '\r' ∧ word.toList.head? ≠ some '\x0C' ∧
      ¬markChars <+: word.toList := by
  obtain ⟨word, first, noReturn, noFormFeed, noMark⟩ := wellFormed.begins
  obtain ⟨others, command⟩ := List.head?_eq_some_iff.mp first
  have isWord := (wellFormed.words word (by simp [command])).1
  obtain ⟨rest, joined⟩ :=
    exists_intercalate_append [0x20] (toBytes word) (others.map toBytes)
  refine ⟨word, rest ++ written.fromPid, ?_, isWord, noReturn, noFormFeed, noMark⟩
  rw [toBytes_headline, command, List.map_cons, joined]
  simp only [List.append_assoc, List.cons_append, List.nil_append]

theorem noFeed_intercalate {words : List (List UInt8)} (all : ∀ word ∈ words, 0x0A ∉ word) :
    0x0A ∉ [0x20].intercalate words := by
  induction words with
  | nil => simp
  | cons first words ih =>
    have rest := ih fun word among => all word (List.mem_cons_of_mem _ among)
    have here := all first List.mem_cons_self
    cases words with
    | nil => simpa using here
    | cons second words =>
      rw [List.intercalate_cons_cons]
      simp [here, rest]

theorem WellFormed.noFeed_headline {written : WrittenEvent} (wellFormed : written.WellFormed) :
    0x0A ∉ toBytes written.headline := by
  have command : 0x0A ∉ [0x20].intercalate (written.command.map toBytes) := by
    apply noFeed_intercalate
    intro bytes among
    obtain ⟨word, inside, rfl⟩ := List.mem_map.mp among
    exact (wellFormed.words word inside).1.noFeed
  have time := wellFormed.time.noFeedByte
  have name := wellFormed.name.noFeedByte
  have details := wellFormed.details.noFeedByte
  simp [toBytes_headline, fromPid, fromTid, fromCpu, fromTime, fromProperty, fromName, fromDetails,
    command, time, name, details, noFeed_decimal]

theorem WellFormed.begins_headline {written : WrittenEvent} (wellFormed : written.WellFormed) :
    ∃ b, (toBytes written.headline).head? = some b ∧ isWhitespaceByte b = false := by
  obtain ⟨word, rest, shape, isWord, noReturn, noFormFeed, -⟩ := wellFormed.first_word
  obtain ⟨b, others, bytes⟩ := List.exists_cons_of_ne_nil isWord.bytes_ne_nil
  have noBlank := isWord.noBlank (b := b) (by simp [bytes])
  have first : (toBytes word).head? = some b := by rw [bytes]; rfl
  have carriage : b ≠ 0x0D := head?_toBytes_ne isWord.latin noReturn first
  have formFeed : b ≠ 0x0C := head?_toBytes_ne isWord.latin noFormFeed first
  simp only [Header.isTokenEnd, isSpaceByte, Bool.or_eq_false_iff] at noBlank
  refine ⟨b, by rw [shape, bytes]; rfl, ?_⟩
  simp [isWhitespaceByte, noBlank, carriage, formFeed]

theorem WellFormed.wellFormed_layout {written : WrittenEvent} (wellFormed : written.WellFormed) :
    written.layout.WellFormed := by
  refine ⟨?_, ?_, ?_⟩
  · simpa only [layout] using wellFormed.begins_headline
  · simpa only [layout] using wellFormed.noFeed_headline
  · intro line among
    obtain ⟨frame, inside, rfl⟩ := List.mem_map.mp among
    exact (wellFormed.frames frame inside).isStackLine

theorem prefix_of_prefix_append {part word rest : List UInt8} {b : UInt8}
    (prefixed : part <+: word ++ b :: rest) (other : b ∉ part) : part <+: word := by
  rcases List.prefix_or_prefix_of_prefix prefixed (List.prefix_append word _) with short | long
  · exact short
  · obtain ⟨more, rfl⟩ := long
    rw [List.prefix_append_right_inj] at prefixed
    cases more with
    | nil => simp
    | cons a more =>
      obtain ⟨rfl, -⟩ := List.cons_prefix_cons.mp prefixed
      simp at other

theorem afterMark_texts {events : List WrittenEvent}
    (wellFormed : ∀ written ∈ events, written.WellFormed) :
    Record.afterMark ((events.map layout).flatMap RecordLayout.bytes) =
      (events.map layout).flatMap RecordLayout.bytes := by
  cases events with
  | nil => rfl
  | cons written events =>
    obtain ⟨word, rest, shape, isWord, -, -, noMark⟩ :=
      (wellFormed written List.mem_cons_self).first_word
    unfold Record.afterMark
    refine if_neg fun mark => noMark ?_
    have whole : Record.byteOrderMark <+:
        ((written :: events).map layout).flatMap RecordLayout.bytes :=
      mark ▸ List.take_prefix _ _
    rw [List.map_cons, List.flatMap_cons, RecordLayout.bytes, layout, shape, List.append_assoc,
      List.append_assoc, List.cons_append] at whole
    have chars := (prefix_of_prefix_append whole (by decide)).map charOfByte
    rwa [map_charOfByte_toBytes isWord.latin] at chars

theorem layoutsOf_texts {events : List WrittenEvent}
    (wellFormed : ∀ written ∈ events, written.WellFormed) :
    Record.layoutsOf (toBytes (String.join (events.map text))) = events.map layout := by
  have records : ∀ record ∈ events.map layout, record.WellFormed := by
    intro record among
    obtain ⟨written, inside, rfl⟩ := List.mem_map.mp among
    exact (wellFormed written inside).wellFormed_layout
  have bytes : toBytes (String.join (events.map text)) =
      (events.map layout).flatMap RecordLayout.bytes := by
    rw [toBytes_join, List.flatMap_map, List.flatMap_map]
    exact congrArg events.flatMap (funext toBytes_text)
  rw [bytes, Record.layoutsOf, afterMark_texts wellFormed, linesOf_flatMap_bytes records,
    layouts_recordLines records]

end WrittenEvent

end ProfileTrace
