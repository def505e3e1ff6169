import ProfileTrace.Proofs.Record.Line

/-! The columns of a record. Integers, headers, switches and stack lines are read within
their lines, whatever stands there. -/

namespace ProfileTrace
open Cursor Text
open TextCursor (LineTail passedOnLine skipToOnLine_eq takeWhile_placed head?_dropWhile_placed
  placed_skip advance_skip length_takeWhile_lt)

variable {α : Type}

theorem WithinLine.after {read : TextCursor → α × TextCursor} {move : TextCursor → TextCursor}
    (second : WithinLine read) (first : WithinLine fun c => ((), move c)) :
    WithinLine fun c => read (move c) :=
  first.bind fun _ => second

theorem withinLine_skipSpaces : WithinLine fun c => ((), skipSpaces c) :=
  withinLine_skipWhile (by decide)

/-! ### Integers -/

theorem beginsHex_append {rest tail : List UInt8} (ends : LineTail tail) :
    beginsHex (rest ++ tail) = beginsHex rest := by
  have noDigit : isHexDigit 0x0A = false := by decide
  match rest with
  | [] =>
    cases ends with
    | none => rfl
    | feed more => cases more with
      | nil => rfl
      | cons _ more => cases more <;> simp [beginsHex]
  | [zero] =>
    cases ends with
    | none => rfl
    | feed more => cases more <;> simp [beginsHex]
  | [zero, second] => cases ends <;> simp [beginsHex, noDigit]
  | zero :: second :: digit :: rest => rfl

theorem length_literalOf_le (text : List UInt8) : (literalOf text).2 ≤ text.length := by
  have digits := fun radix marked =>
    (List.takeWhile_prefix (l := text.drop marked) fun b => (digitValue? radix b).isSome).length_le
  simp only [List.length_drop] at digits
  simp only [literalOf]
  cases hex : beginsHex text with
  | false =>
    have := digits 10 0
    simp only [Bool.false_eq_true, if_false]
    omega
  | true =>
    have := digits 16 2
    have := three_le_of_beginsHex hex
    simp only [if_true]
    omega

theorem literalOf_append {rest tail : List UInt8} (ends : LineTail tail) :
    literalOf (rest ++ tail) = literalOf rest := by
  have digits : ∀ (radix : Nat) (text : List UInt8), digitValue? radix 0x0A = none →
      (text ++ tail).takeWhile (fun b => (digitValue? radix b).isSome) =
        text.takeWhile fun b => (digitValue? radix b).isSome :=
    fun radix text stops => takeWhile_placed (by simp [stops]) ends text
  simp only [literalOf, beginsHex_append ends]
  cases hex : beginsHex rest with
  | false =>
    simp only [Bool.false_eq_true, if_false, List.drop_zero]
    rw [digits 10 rest (by decide)]
  | true =>
    have long := three_le_of_beginsHex hex
    simp only [if_true, List.drop_append_of_le_length (show 2 ≤ rest.length by omega)]
    rw [digits 16 (rest.drop 2) (by decide)]

theorem withinLine_readMagnitude : WithinLine (readMagnitude : TextCursor → Nat × TextCursor) where
  placed {c} line before tail ends := by
    have noDigit : isHexDigit c.sentinel = false := by
      rw [line.sentinel]
      decide
    have same : literalOf (c.placed before tail).rest = literalOf c.rest := literalOf_append ends
    rw [readMagnitude_eq (completesLiteral_of_noDigit noDigit _),
      readMagnitude_eq (c := c.placed before tail) (completesLiteral_of_noDigit noDigit _), same,
      placed_skip (length_literalOf_le c.rest)]
  onLine {c} line := by
    have noDigit : isHexDigit c.sentinel = false := by
      rw [line.sentinel]
      decide
    rw [readMagnitude_eq (completesLiteral_of_noDigit noDigit _)]
    exact line.skip _

theorem withinLine_readUnsigned :
    WithinLine (readUnsigned : TextCursor → Option Nat × TextCursor) :=
  .branch isDigitByte (by decide)
    (withinLine_readMagnitude.map fun n => if n < 0x8000000000000000 then some n else none)
    (.pure none)

theorem withinLine_readInt : WithinLine (readInt : TextCursor → Int × TextCursor) := by
  have signed := WithinLine.advancing (· == 0x2D) (by decide) (by decide)
    (withinLine_readUnsigned.map fun magnitude =>
      (magnitude.map fun n => -(n : Int)).getD absent)
    (withinLine_readUnsigned.map fun magnitude =>
      (magnitude.map fun n => (n : Int)).getD absent)
  have spaced := signed.after withinLine_skipSpaces
  exact spaced

theorem withinLine_readInt32 : WithinLine (readInt32 : TextCursor → Int × TextCursor) :=
  withinLine_readInt.map fun value =>
    if -0x80000000 ≤ value ∧ value < 0x80000000 then value else absent

/-! ### Headers -/

namespace Header

theorem atCommandEnd_placed {c : TextCursor} (line : c.OnLine) {before : Nat} {tail : List UInt8}
    (ends : LineTail tail) : atCommandEnd (c.placed before tail) = atCommandEnd c := by
  obtain ⟨rest, position, sentinel⟩ := c
  have zero : sentinel = 0 := line.sentinel
  cases rest with
  | cons b rest => rfl
  | nil => cases ends <;> rfl

theorem withinLine_readToken :
    WithinLine (readUntil isTokenEnd : TextCursor → List UInt8 × TextCursor) :=
  withinLine_readUntil isTokenEnd (by decide)

theorem withinLine_takeTokens (tokens : List (List UInt8)) :
    WithinLine (takeTokens tokens : TextCursor → List (List UInt8) × TextCursor) where
  placed {c} line before tail ends := by
    fun_induction takeTokens tokens c with
    | case1 tokens c ended =>
      have here := withinLine_skipSpaces.onLine line
      have spaces : skipSpaces (c.placed before tail) = (skipSpaces c).placed before tail :=
        congrArg Prod.snd (withinLine_skipSpaces.placed line before ends)
      rw [takeTokens, spaces, dif_pos (atCommandEnd_placed here ends ▸ ended)]
    | case2 tokens c going token ih =>
      have here := withinLine_skipSpaces.onLine line
      have spaces : skipSpaces (c.placed before tail) = (skipSpaces c).placed before tail :=
        congrArg Prod.snd (withinLine_skipSpaces.placed line before ends)
      have moved := withinLine_readToken.placed here before ends
      rw [takeTokens, spaces, dif_neg (atCommandEnd_placed here ends ▸ going), moved]
      exact ih (withinLine_readToken.onLine here)
  onLine {c} line := by
    fun_induction takeTokens tokens c with
    | case1 tokens c ended => exact withinLine_skipSpaces.onLine line
    | case2 tokens c going token ih =>
      exact ih (withinLine_readToken.onLine (withinLine_skipSpaces.onLine line))

theorem withinLine_readCommand :
    WithinLine (readCommand : TextCursor → String × TextCursor) :=
  (withinLine_takeTokens []).map fun tokens => ofBytes ([0x20].intercalate tokens.reverse)

theorem withinLine_readTid (pid : Int) :
    WithinLine (readTid pid : TextCursor → Int × TextCursor) :=
  .advancing (· == 0x2F) (by decide) (by decide) withinLine_readInt32 (.pure pid)

def skipByte (b : UInt8) (c : TextCursor) : TextCursor := if current c == b then (advance c).2 else c

theorem withinLine_skipByte (b : UInt8) (noFeed : b ≠ 0x0A) (noNul : b ≠ 0) :
    WithinLine fun c => ((), skipByte b c) := by
  have moved := WithinLine.advancing (· == b) (by simpa using noFeed.symm)
    (by simpa using noNul.symm) (WithinLine.pure ()) (WithinLine.pure ())
  simpa only [skipByte, ← apply_ite (Prod.mk ())] using moved

theorem withinLine_readCpu : WithinLine (readCpu : TextCursor → Int × TextCursor) := by
  have closed := withinLine_readInt32.bind fun cpu =>
    (withinLine_skipByte 0x5D (by decide) (by decide)).map fun _ => cpu
  exact .advancing (· == 0x5B) (by decide) (by decide) closed (.pure absent)

theorem withinLine_readColumn : WithinLine (readColumn : TextCursor → String × TextCursor) := by
  have column := (withinLine_readUntil isColumnEnd (by decide)).bind fun bytes =>
    (withinLine_skipByte 0x3A (by decide) (by decide)).map fun _ => trim (ofBytes bytes)
  exact column

theorem withinLine_readProperty : WithinLine (readProperty : TextCursor → Int × TextCursor) :=
  .branch isDigitByte (by decide) withinLine_readInt (.pure absent)

theorem withinLine_read : WithinLine (read : TextCursor → Header × TextCursor) := by
  have column := withinLine_readColumn.after withinLine_skipSpaces
  have number := withinLine_readProperty.after withinLine_skipSpaces
  have processor := withinLine_readCpu.after withinLine_skipSpaces
  have header := withinLine_readCommand.bind fun command => withinLine_readInt32.bind fun pid =>
    (withinLine_readTid pid).bind fun tid => processor.bind fun cpu => column.bind fun time =>
    number.bind fun timeProperty => column.map fun name =>
      ({ command, pid, tid, cpu, timeProperty, name,
         time := (Seconds.ofText? time).getD .minusOne } : Header)
  exact header

end Header

/-! ### Switches -/

namespace Switch

theorem skipPast_eq (target : UInt8) (c : TextCursor) :
    skipPast target c =
      if (c.rest.dropWhile (passedOnLine target)).head? == some target then
        (true, c.skip ((c.rest.takeWhile (passedOnLine target)).length + 1))
      else (false, c.skip (c.rest.takeWhile (passedOnLine target)).length) := by
  unfold skipPast
  rw [skipToOnLine_eq]
  cases found : (c.rest.dropWhile (passedOnLine target)).head? == some target with
  | false => rfl
  | true =>
    have inside := length_takeWhile_lt (by simpa using found)
    simp only [if_true, advance_skip inside]

theorem withinLine_skipPast {target : UInt8} (other : target ≠ 0x0A) :
    WithinLine (skipPast target : TextCursor → Bool × TextCursor) where
  placed {c} line before tail ends := by
    have run : (c.placed before tail).rest.takeWhile (passedOnLine target) =
        c.rest.takeWhile (passedOnLine target) :=
      takeWhile_placed (by simp [passedOnLine]) ends c.rest
    have found : (((c.placed before tail).rest.dropWhile (passedOnLine target)).head? ==
        some target) = ((c.rest.dropWhile (passedOnLine target)).head? == some target) :=
      head?_dropWhile_placed (by simp [passedOnLine]) ends other c.rest
    rw [skipPast_eq, skipPast_eq, run, found]
    split
    next there =>
      rw [placed_skip (length_takeWhile_lt (by simpa using there))]
    next => rw [placed_skip (List.takeWhile_prefix _).length_le]
  onLine {c} line := by
    rw [skipPast_eq]
    split
    · exact line.skip _
    · exact line.skip _

theorem withinLine_readCommand : WithinLine (readCommand : TextCursor → String × TextCursor) := by
  have token := (withinLine_readUntil isCommandEnd (by decide)).map ofBytes
  exact token

theorem withinLine_readState : WithinLine (readState : TextCursor → Char × TextCursor) where
  placed {c} line before tail ends := by
    obtain ⟨rest, position, sentinel⟩ := c
    have zero : sentinel = 0 := line.sentinel
    subst zero
    cases rest with
    | nil => cases ends <;> rfl
    | cons b rest =>
      simp only [readState, TextCursor.placed, List.cons_append, TextCursor.current_cons,
        TextCursor.advance_cons, Nat.add_assoc]
      by_cases graphic : isGraphicByte b = true <;> simp [graphic]
  onLine {c} line := by
    unfold readState
    split
    · exact line.advance
    · exact line

theorem withinLine_valueField {α : Type} {readValue : TextCursor → α × TextCursor}
    (value : WithinLine readValue) (keep : Switch → α → Switch) (switch : Switch) :
    WithinLine ((valueField readValue keep).read switch) :=
  value.map (keep switch)

theorem withinLine_field {field : Field TextCursor} (listed : field ∈ fields) (switch : Switch) :
    WithinLine (field.read switch) := by
  simp only [fields, List.mem_cons, List.not_mem_nil, or_false] at listed
  rcases listed with rfl | rfl | rfl | rfl | rfl | rfl | rfl | rfl
  · exact withinLine_valueField withinLine_readCommand _ switch
  · exact withinLine_valueField withinLine_readInt32 _ switch
  · exact withinLine_valueField withinLine_readInt32 _ switch
  · exact withinLine_valueField withinLine_readState _ switch
  · exact .pure switch
  · exact withinLine_valueField withinLine_readCommand _ switch
  · exact withinLine_valueField withinLine_readInt32 _ switch
  · exact withinLine_valueField withinLine_readInt32 _ switch

theorem separator_ne_feed {field : Field TextCursor} (listed : field ∈ fields) :
    field.separator ≠ 0x0A := by
  simp only [fields, List.mem_cons, List.not_mem_nil, or_false] at listed
  rcases listed with rfl | rfl | rfl | rfl | rfl | rfl | rfl | rfl <;> decide

theorem withinLine_readFields {chosen : List (Field TextCursor)}
    (listed : ∀ field ∈ chosen, field ∈ fields) (switch : Switch) :
    WithinLine (readFields chosen switch) := by
  induction chosen generalizing switch with
  | nil => exact .pure switch
  | cons field others ih =>
    have value := withinLine_field (listed field (by simp)) switch
    have past := withinLine_skipPast (separator_ne_feed (listed field (by simp)))
    have rest := value.bind fun switch => ih (fun other more => listed other (by simp [more])) switch
    have fork : ∀ found : Bool, WithinLine fun c =>
        if found then readFields others (field.read switch c).1 (field.read switch c).2
        else (switch, c) := by
      intro found
      cases found with
      | true => exact rest
      | false => exact .pure switch
    have whole := past.bind fork
    have same : readFields (field :: others) switch = fun c =>
        if (skipPast field.separator c).1 then
          readFields others (field.read switch (skipPast field.separator c).2).1
            (field.read switch (skipPast field.separator c).2).2
        else (switch, (skipPast field.separator c).2) := by
      funext c
      rw [readFields]
      split
      next found => simp [found]
      next found => simp [found]
    rw [same]
    exact whole

theorem withinLine_read : WithinLine (read : TextCursor → Switch × TextCursor) :=
  withinLine_readFields (fun _ listed => listed) {}

end Switch

/-! ### Lines of a stack -/

namespace FrameLine

theorem withinLine_toFeed : WithinLine fun c : TextCursor => ((), skipTo 0x0A c) :=
  withinLine_skipWhile (by decide)

theorem withinLine_readCode : WithinLine (readCode : TextCursor → Frame × TextCursor) := by
  have symbol := (withinLine_readUntilLastOnLine 0x28).after withinLine_skipSpaces
  have code := (withinLine_readUntil isFieldEnd (by decide)).bind fun address =>
    symbol.bind fun symbol =>
    (withinLine_readUntil (· == 0x0A) (by decide)).map fun column =>
      codeFrame (ofBytes address) (ofBytes symbol) (ofBytes column)
  exact code

def readAtText (c : TextCursor) : FrameLine × TextCursor :=
  if current c == cutMarker && !atEnd c then (.cut, skipTo 0x0A c)
  else if current c == 0x0A || current c == 0x0D then (.blank, skipTo 0x0A c)
  else if atEnd c then (.blank, c)
  else (.entry (readCode c).1, (readCode c).2)

theorem withinLine_readAtText : WithinLine readAtText where
  placed {c} line before tail ends := by
    cases ended : atEnd c with
    | true =>
      obtain ⟨rest, position, sentinel⟩ := c
      have zero : sentinel = 0 := line.sentinel
      have empty : rest = [] := by simpa using ended
      subst zero empty
      cases ends with
      | none => rfl
      | feed rest =>
        have stays : skipTo 0x0A (⟨0x0A :: rest, before + position, 0⟩ : TextCursor) =
            ⟨0x0A :: rest, before + position, 0⟩ := skipWhile_of_not_test rfl
        exact congrArg (Prod.mk FrameLine.blank) stays
    | false =>
      have same : current (c.placed before tail) = current c ∧
          atEnd (c.placed before tail) = false := by
        obtain ⟨rest, position, sentinel⟩ := c
        cases rest with
        | nil => simp at ended
        | cons b rest => exact ⟨rfl, rfl⟩
      have feed : skipTo 0x0A (c.placed before tail) = (skipTo 0x0A c).placed before tail :=
        congrArg Prod.snd (withinLine_toFeed.placed line before ends)
      have code := withinLine_readCode.placed line before ends
      simp only [readAtText, same, ended, feed, code]
      split
      · rfl
      · split <;> rfl
  onLine {c} line := by
    unfold readAtText
    split
    · exact withinLine_toFeed.onLine line
    · split
      · exact withinLine_toFeed.onLine line
      · split
        · exact line
        · exact withinLine_readCode.onLine line

theorem withinLine_read : WithinLine (read : TextCursor → FrameLine × TextCursor) := by
  have spaced := withinLine_readAtText.after withinLine_skipSpaces
  exact spaced

end FrameLine

end ProfileTrace
