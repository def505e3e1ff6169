import ProfileTrace.Proofs.Record.CodeLines
import ProfileTrace.Proofs.Record.Independence
import ProfileTrace.Proofs.Record.Printing
import ProfileTrace.Proofs.Record.Reads

/-! Reading undoes printing: the columns of a header line follow one another, the last bracket of
a line of a stack opens its module, and so whole events and texts of events are read back. -/

namespace ProfileTrace
open Cursor Text
open TextCursor (passedOnLine readUntil_eq restore_mark skip_cons)

/-! ### Header lines -/

theorem IsColumn.endsRun_of_ne_nil {text : String} (column : IsColumn text)
    (nonempty : toBytes text ≠ []) (more : List UInt8) :
    EndsRun isSpaceByte (toBytes text ++ more) := by
  obtain ⟨d, others, bytes⟩ := List.exists_cons_of_ne_nil nonempty
  rw [bytes]
  exact .of_head (column.noSpace (by rw [bytes]; rfl)) _

theorem IsColumn.endsRun {text : String} (column : IsColumn text) {more : List UInt8}
    (ends : EndsRun isSpaceByte more) : EndsRun isSpaceByte (toBytes text ++ more) := by
  by_cases empty : toBytes text = []
  · rwa [empty]
  · exact column.endsRun_of_ne_nil empty more

theorem IsColumn.reads {text : String} (column : IsColumn text) (noColon : ':' ∉ text.toList)
    (rest : List UInt8) :
    Reads (fun c => Header.readColumn (skipSpaces c)) (0x20 :: (toBytes text ++ 0x3A :: rest)) rest
      text := by
  have all : ∀ b ∈ toBytes text, Header.isColumnEnd b = false := by
    intro b inside
    have feed : b ≠ 0x0A := fun same => column.noFeedByte (same ▸ inside)
    have colon : b ≠ 0x3A := by
      rintro rfl
      exact noColon ((mem_toBytes column.latin).mp inside)
    simp [Header.isColumnEnd, feed, colon]
  have found := Header.reads_readColumn all rest
  rw [ofBytes_toBytes column.latin, column.trimmed] at found
  exact found.after_space (column.endsRun (.of_head (by decide) rest))

namespace WrittenEvent
variable {written : WrittenEvent}

theorem WellFormed.isToken (wellFormed : written.WellFormed) :
    ∀ bytes ∈ written.command.map toBytes, Header.IsToken bytes := by
  intro bytes among
  obtain ⟨word, inside, rfl⟩ := List.mem_map.mp among
  obtain ⟨isWord, noDigit⟩ := wellFormed.words word inside
  refine ⟨isWord.bytes_ne_nil, fun _ => isWord.noBlank, ?_⟩
  intro b first
  refine Bool.eq_false_iff.mpr fun digit => ?_
  rw [← map_charOfByte_toBytes isWord.latin, List.head?_map, first] at noDigit
  simp [isDigit_charOfByte digit] at noDigit

def header (written : WrittenEvent) : Header where
  command := " ".intercalate written.command
  pid := written.pid
  tid := written.tid
  cpu := written.cpu
  time := written.seconds
  timeProperty := written.timeProperty
  name := written.name

theorem WellFormed.reads_command (wellFormed : written.WellFormed) :
    Reads Header.readCommand (toBytes written.headline) written.fromPid
      (" ".intercalate written.command) := by
  obtain ⟨d, digits, shape, digit⟩ := exists_decimal written.pid
  have words := Header.reads_takeTokens wellFormed.isToken digit (digits ++ written.fromTid) []
  have tokens := words.map fun tokens => ofBytes ([0x20].intercalate tokens.reverse)
  have latin : IsLatin (" ".intercalate written.command) :=
    isLatin_intercalate (by simp [IsLatin]) fun word among => (wellFormed.words word among).1.latin
  have bytes : [0x20].intercalate (written.command.map toBytes) =
      toBytes (" ".intercalate written.command) := (toBytes_intercalate " " written.command).symm
  have text : ofBytes ([0x20].intercalate ((written.command.map toBytes).reverse ++ []).reverse) =
      " ".intercalate written.command := by
    rw [List.append_nil, List.reverse_reverse, bytes, ofBytes_toBytes latin]
  rw [text] at tokens
  rw [toBytes_headline, fromPid, shape]
  exact tokens

theorem WellFormed.reads_header (wellFormed : written.WellFormed) :
    Reads Header.read (toBytes written.headline) written.fromDetails written.header := by
  have pid : Reads readInt32 written.fromPid written.fromTid written.pid :=
    reads_readInt32 wellFormed.pid (.of_head (by decide) _)
  have tid : Reads (Header.readTid written.pid) written.fromTid written.fromCpu written.tid :=
    Header.reads_readTid written.pid wellFormed.tid (.of_head (by decide) _)
  have cpu : Reads (fun c => Header.readCpu (skipSpaces c)) written.fromCpu written.fromTime
      written.cpu :=
    (Header.reads_readCpu wellFormed.cpu written.fromTime).after_space (.of_head (by decide) _)
  have time : Reads (fun c => Header.readColumn (skipSpaces c)) written.fromTime
      written.fromProperty written.time :=
    wellFormed.time.reads wellFormed.timeNoColon written.fromProperty
  have number : Reads (fun c => Header.readProperty (skipSpaces c)) written.fromProperty
      written.fromName written.timeProperty :=
    (Header.reads_readProperty wellFormed.timeProperty (.of_head (by decide) _)).after_space
      (endsRun_decimal _ _)
  have name : Reads (fun c => Header.readColumn (skipSpaces c)) written.fromName
      written.fromDetails written.name :=
    wellFormed.name.reads wellFormed.nameNoColon written.fromDetails
  intro position
  obtain ⟨atPid, command⟩ := wellFormed.reads_command position
  obtain ⟨atTid, pid⟩ := pid atPid
  obtain ⟨atCpu, tid⟩ := tid atTid
  obtain ⟨atTime, cpu⟩ := cpu atCpu
  obtain ⟨atProperty, time⟩ := time atTime
  obtain ⟨atName, number⟩ := number atProperty
  obtain ⟨after, name⟩ := name atName
  refine ⟨after, ?_⟩
  simp only [Header.read, command, pid, tid, cpu, time, number, name, wellFormed.seconds,
    Option.getD_some, header]

end WrittenEvent

/-! ### Details -/

theorem Switch.readFields_space {field : Field TextCursor}
    (other : passedOnLine field.separator 0x20 = true) (others : List (Field TextCursor))
    (switch : Switch) (details : List UInt8) (position : Nat) :
    readFields (field :: others) switch ⟨0x20 :: details, position, 0⟩ =
      readFields (field :: others) switch ⟨details, position + 1, 0⟩ := by
  have past : skipPast field.separator (⟨0x20 :: details, position, 0⟩ : TextCursor) =
      skipPast field.separator (⟨details, position + 1, 0⟩ : TextCursor) := by
    simp only [skipPast_eq, List.takeWhile_cons, List.dropWhile_cons, other, if_true,
      List.length_cons, skip_cons]
  simp only [readFields, past]

theorem Switch.fst_read_space {details : List UInt8} (noFeed : 0x0A ∉ details) (position : Nat) :
    (Switch.read (⟨0x20 :: details, position, 0⟩ : TextCursor)).1 =
      (Switch.read ({ rest := details } : TextCursor)).1 := by
  have line : (⟨details, 0, 0⟩ : TextCursor).OnLine := ⟨noFeed, rfl⟩
  have moved := congrArg Prod.fst (Switch.withinLine_read.placed line (position + 1) .none)
  rw [TextCursor.placed, List.append_nil] at moved
  rw [← moved]
  exact congrArg Prod.fst (readFields_space (by decide) _ {} details position)

namespace WrittenEvent
variable {written : WrittenEvent}

theorem WellFormed.fst_readDetails (wellFormed : written.WellFormed) (header : Header)
    (position : Nat) :
    (Headline.readDetails header ⟨written.fromDetails, position, 0⟩).1 =
      { header, details := written.details
        switch := if written.isSwitch then some written.switch else none } := by
  have noFeed := wellFormed.details.noFeedByte
  have bytes : (readUntil (· == 0x0A) (⟨written.fromDetails, position, 0⟩ : TextCursor)).1 =
      written.fromDetails := by
    rw [readUntil_eq]
    apply List.takeWhile_eq_self_iff.mpr
    intro b inside
    rcases List.mem_cons.mp inside with rfl | among
    · rfl
    · have other : b ≠ 0x0A := fun same => noFeed (same ▸ among)
      simp [other]
  have details : trim (ofBytes written.fromDetails) = written.details := by
    rw [fromDetails, trim_ofBytes_cons (by decide), ofBytes_toBytes wellFormed.details.latin,
      wellFormed.details.trimmed]
  have back := restore_mark (sentinel_readUntil (· == 0x0A) ⟨written.fromDetails, position, 0⟩)
  have switch : (Switch.read (⟨written.fromDetails, position, 0⟩ : TextCursor)).1 =
      written.switch := Switch.fst_read_space noFeed position
  have mark : hasPrefix written.details Switch.detailsMark = written.isSwitch := rfl
  simp only [Headline.readDetails, bytes, details, Record.readSwitch, back, mark]
  by_cases marked : written.isSwitch = true
  · simp only [if_pos marked, switch]
  · simp only [if_neg marked]

theorem WellFormed.ofLine_headline (wellFormed : written.WellFormed) :
    Headline.ofLine (toBytes written.headline) =
      { header := written.header, details := written.details
        switch := if written.isSwitch then some written.switch else none } := by
  obtain ⟨after, header⟩ := wellFormed.reads_header 0
  rw [Headline.ofLine, Headline.read, header]
  exact wellFormed.fst_readDetails written.header after

end WrittenEvent

/-! ### Lines of a stack -/

namespace WrittenFrame
variable {written : WrittenFrame}

/-- The symbol as it is read, with the space after it. -/
def padded (written : WrittenFrame) : List UInt8 :=
  if toBytes written.symbol = [] then [] else toBytes written.symbol ++ [0x20]

theorem WellFormed.padded_cases (wellFormed : written.WellFormed) :
    (written.padded = [] ∧ written.symbol.toList = []) ∨
      (ofBytes written.padded).toList = written.symbol.toList ++ [' '] := by
  unfold padded
  split
  next empty => exact .inl ⟨rfl, List.map_eq_nil_iff.mp empty⟩
  next =>
    right
    rw [toList_ofBytes, List.map_append, map_charOfByte_toBytes wellFormed.symbol.latin]
    rfl

theorem WellFormed.trim_padded (wellFormed : written.WellFormed) :
    trim (ofBytes written.padded) = written.symbol := by
  have trimmed := wellFormed.symbol.trimmed
  have blank : isBlank ' ' = true := by decide
  rcases wellFormed.padded_cases with ⟨empty, none⟩ | chars
  · rw [← trimmed, trim, trim, none, empty]
    rfl
  · rw [trim, chars, trimChars_concat blank]
    exact trimmed

theorem WellFormed.splitMapSymbol_padded (wellFormed : written.WellFormed)
    (mapped : hasSuffix written.module ".map" = true) :
    FrameLine.splitMapSymbol (ofBytes written.padded) written.module =
      (written.module, written.symbol) := by
  have symbol := wellFormed.mapped mapped
  have empty : FrameLine.isBracketedToken [] = false := rfl
  have none : (pieces ' ' (ofBytes written.padded).toList).dropWhile
      (fun token => !FrameLine.isBracketedToken token) = [] := by
    rw [List.dropWhile_eq_nil_iff]
    intro token among
    have plain : FrameLine.isBracketedToken token = false := by
      rcases wellFormed.padded_cases with ⟨none, -⟩ | chars
      · rw [none] at among
        rw [List.mem_singleton.mp among, empty]
      · rw [chars, pieces_concat, List.mem_append] at among
        rcases among with inside | last
        · exact symbol token inside
        · rw [List.mem_singleton.mp last, empty]
    rw [plain]
    rfl
  rw [FrameLine.splitMapSymbol, none, wellFormed.trim_padded, wellFormed.symbolPlain]

theorem WellFormed.codeFrame_eq (wellFormed : written.WellFormed) :
    FrameLine.codeFrame (ofBytes (toBytes written.address)) (ofBytes written.padded)
      (ofBytes (0x28 :: (toBytes written.module ++ [0x29]))) = written.frame := by
  have path : unwrap (trim (ofBytes (0x28 :: (toBytes written.module ++ [0x29])))) =
      written.module := by
    have chars : (ofBytes (0x28 :: (toBytes written.module ++ [0x29]))).toList =
        '(' :: (written.module.toList ++ [')']) := by
      rw [toList_ofBytes, List.map_cons, List.map_append, map_charOfByte_toBytes wellFormed.latin]
      rfl
    rw [unwrap, toList_trim, chars, trimChars_wrapped (by decide) (by decide),
      unwrapChars_wrapped rfl]
    exact wellFormed.modulePlain
  have columns : (if hasSuffix written.module ".map" then
        FrameLine.splitMapSymbol (ofBytes written.padded) written.module
      else (written.module, unwrap (trim (ofBytes written.padded)))) =
        (written.module, written.symbol) := by
    split
    next mapped => exact wellFormed.splitMapSymbol_padded mapped
    next => rw [wellFormed.trim_padded, wellFormed.symbolPlain]
  simp only [FrameLine.codeFrame, path, columns, ofBytes_toBytes wellFormed.address.latin,
    wellFormed.noDirectory, frame]

theorem WellFormed.dropWhile_symbol (wellFormed : written.WellFormed) :
    (toBytes written.symbol ++ [0x20]).dropWhile isSpaceByte = written.padded := by
  unfold padded
  split
  next empty => rw [empty]; rfl
  next nonempty =>
    obtain ⟨d, others, bytes⟩ := List.exists_cons_of_ne_nil nonempty
    have first : isSpaceByte d = false := wellFormed.symbol.noSpace (by rw [bytes]; rfl)
    rw [bytes, List.cons_append, List.dropWhile_cons_of_neg (by simp [first])]

def WellFormed.codeLine (wellFormed : written.WellFormed) : CodeLine where
  indent := [0x09]
  address := toBytes written.address
  symbol := toBytes written.symbol ++ [0x20]
  path := toBytes written.module
  blank := by simp [isSpaceByte]
  named := wellFormed.address.bytes_ne_nil
  token := fun _ => wellFormed.address.noBlank
  unmarked := by
    obtain ⟨b, rest, bytes, -, -, noMarker, -⟩ := wellFormed.first_address
    simpa [bytes] using noMarker
  noReturn := by
    obtain ⟨b, rest, bytes, -, -, -, noReturn⟩ := wellFormed.first_address
    simpa [bytes] using noReturn
  noFeed := by
    have module : 0x0A ∉ toBytes written.module :=
      fun inside => wellFormed.noFeed ((mem_toBytes wellFormed.latin).mp inside)
    simp [wellFormed.symbol.noFeedByte, module]
  noBracket := fun inside => wellFormed.noBracket ((mem_toBytes wellFormed.latin).mp inside)

theorem WellFormed.ofLine_line (wellFormed : written.WellFormed) :
    FrameLine.ofLine (toBytes written.line) = .entry written.frame := by
  have text : toBytes written.line = wellFormed.codeLine.text ++ [] := by
    rw [toBytes_line]
    simp [CodeLine.text, CodeLine.column, codeLine, fromSymbol, fromModule]
  have found := wellFormed.codeLine.read_eq (c := { rest := toBytes written.line }) text
    (by simp [EndsRun])
  have columns : FrameLine.codeFrame (ofBytes (toBytes written.address))
      (ofBytes (toBytes written.symbol ++ [0x20])) (ofBytes wellFormed.codeLine.column) =
        written.frame := by
    rw [← FrameLine.codeFrame_dropWhile, wellFormed.dropWhile_symbol]
    exact wellFormed.codeFrame_eq
  rw [FrameLine.ofLine, found]
  exact congrArg FrameLine.entry columns

end WrittenFrame

/-! ### Events -/

namespace WrittenEvent
variable {written : WrittenEvent}

theorem WellFormed.event_layout (wellFormed : written.WellFormed) :
    written.layout.event = written.event := by
  have lines : written.layout.lines.map FrameLine.ofLine =
      written.frames.map fun frame => FrameLine.entry frame.frame := by
    rw [layout, List.map_map]
    exact List.map_congr_left fun frame inside => (wellFormed.frames frame inside).ofLine_line
  have headline : Headline.ofLine written.layout.header =
      { header := written.header, details := written.details
        switch := if written.isSwitch then some written.switch else none } := by
    simpa only [layout] using wellFormed.ofLine_headline
  have noCut : FrameLine.cut ∉ written.frames.map fun frame => FrameLine.entry frame.frame := by
    simp
  have kind : (if written.isSwitch then some written.switch else none).isSome =
      written.isSwitch := by
    cases written.isSwitch <;> rfl
  have frames : (written.frames.map fun frame => FrameLine.entry frame.frame).filterMap
      Record.frameOfLine = written.frames.map WrittenFrame.frame := by
    rw [List.filterMap_map]
    exact congrFun (List.filterMap_eq_map (f := WrittenFrame.frame)) written.frames
  rw [RecordLayout.event, lines, headline]
  simp [Headline.event, event, header, kind, noCut, frames]

end WrittenEvent

/-- Reading undoes printing. -/
theorem Record.ofBuffer_texts {events : List WrittenEvent}
    (wellFormed : ∀ written ∈ events, written.WellFormed) :
    ofBuffer (fun _ => true) (toBytes (String.join (events.map WrittenEvent.text))) =
      events.map fun written => .event written.event := by
  rw [ofBuffer_eq, ofText_all, WrittenEvent.layoutsOf_texts wellFormed, List.map_map, List.map_map]
  exact List.map_congr_left fun written inside =>
    congrArg Record.event (wellFormed written inside).event_layout

/-- A command of two words with a frame whose symbol has brackets of its own. -/
def WrittenEvent.bracketed : WrittenEvent where
  command := ["Web", "Content"]
  pid := 20
  tid := 21
  cpu := 3
  time := "1.5"
  seconds := ⟨0x3FF8000000000000⟩
  timeProperty := 1
  name := "cpu-clock"
  details := ""
  frames := [⟨"7f3a", "main (int, char**)", "libc.so"⟩]

def WrittenEvent.handover : WrittenEvent where
  command := ["swapper"]
  pid := 0
  tid := 0
  cpu := 0
  time := "2"
  seconds := ⟨0x4000000000000000⟩
  timeProperty := 7
  name := "sched"
  details := "sched_switch: prev_comm=swapper prev_pid=0"
  frames := []

theorem Record.ofBuffer_texts_handover :
    (∀ written ∈ [WrittenEvent.bracketed, WrittenEvent.handover], written.WellFormed) ∧
      ofBuffer (fun _ => true)
          (toBytes (String.join ([.bracketed, .handover].map WrittenEvent.text))) =
        [WrittenEvent.bracketed, .handover].map fun written => .event written.event := by
  have wellFormed : ∀ written ∈ [WrittenEvent.bracketed, .handover], written.WellFormed := by
    decide +kernel
  exact ⟨wellFormed, ofBuffer_texts wellFormed⟩

end ProfileTrace
