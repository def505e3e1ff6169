import ProfileTrace.Proofs.Record.Layout

/-! Reading a text is reading the records that lie in its lines, each on its own. The scan
keeps to one place between records: after it the blanks ahead hide nothing of the next. -/

namespace ProfileTrace
open Cursor Text
open TextCursor (restore_mark skipWhile_eq readUntil_eq rest_skipWhile sentinel_skipWhile)

structure Headline where
  header : Header
  details : String
  switch : Option Switch

def Headline.readDetails (header : Header) (c : TextCursor) : Headline × TextCursor :=
  let details := trim (ofBytes (readUntil (· == 0x0A) c).1)
  let switch := Record.readSwitch (mark c) details (readUntil (· == 0x0A) c).2
  ({ header, details, switch := switch.1 }, switch.2)

def Headline.read (c : TextCursor) : Headline × TextCursor :=
  Headline.readDetails (Header.read c).1 (Header.read c).2

def Headline.event (headline : Headline) (lines : List FrameLine) : Event where
  kind := if headline.switch.isSome then .scheduler else .cpu
  command := headline.header.command
  pid := headline.header.pid
  tid := headline.header.tid
  cpu := headline.header.cpu
  time := headline.header.time
  timeProperty := headline.header.timeProperty
  name := headline.header.name
  details := headline.details
  switch := headline.switch
  frames := lines.filterMap Record.frameOfLine ++
    [.thread headline.header.tid, .process headline.header.command]
  truncated := lines.contains .cut

def Headline.ofLine (line : List UInt8) : Headline := (Headline.read { rest := line }).1

def FrameLine.ofLine (line : List UInt8) : FrameLine :=
  (FrameLine.read ({ rest := line } : TextCursor)).1

namespace RecordLayout

def event (layout : RecordLayout) : Event :=
  (Headline.ofLine layout.header).event (layout.lines.map FrameLine.ofLine)

def record (accepts : String → Bool) (layout : RecordLayout) : Record :=
  if accepts (Headline.ofLine layout.header).header.name then .event layout.event else .filtered

end RecordLayout

/-! ### Lines to their ends -/

theorem TextCursor.placed_of_rest_nil {c : TextCursor} (ended : c.rest = []) (zero : c.sentinel = 0)
    (before : Nat) (tail : List UInt8) :
    c.placed before tail = ⟨tail, before + c.position, 0⟩ := by
  rw [TextCursor.placed, ended, zero]
  rfl

theorem sentinel_readUntil (stop : UInt8 → Bool) (c : TextCursor) :
    (readUntil stop c).2.sentinel = c.sentinel := by
  rw [readUntil_eq]
  rfl

theorem rest_readUntil_feed {c : TextCursor} (line : c.OnLine) :
    (readUntil (· == 0x0A) c).2.rest = [] := by
  have all : c.rest.takeWhile (fun b => !(b == 0x0A)) = c.rest := by
    apply List.takeWhile_eq_self_iff.mpr
    intro b inside
    have other : b ≠ 0x0A := fun same => line.noFeed (same ▸ inside)
    simpa using other
  rw [readUntil_eq, all]
  exact List.drop_length

theorem rest_skipTo_feed {c : TextCursor} (line : c.OnLine) : (skipTo 0x0A c).rest = [] := by
  have all : c.rest.takeWhile (· != 0x0A) = c.rest := by
    apply List.takeWhile_eq_self_iff.mpr
    intro b inside
    have other : b ≠ 0x0A := fun same => line.noFeed (same ▸ inside)
    simpa using other
  rw [skipTo, skipWhile_eq, all]
  exact List.drop_length

theorem FrameLine.rest_read {c : TextCursor} (line : c.OnLine) : (FrameLine.read c).2.rest = [] := by
  have here := withinLine_skipSpaces.onLine line
  unfold FrameLine.read
  simp only
  split
  · exact rest_skipTo_feed here
  · split
    · exact rest_skipTo_feed here
    · split
      next ended =>
        exact List.isEmpty_iff.mp ended
      next =>
        have address := (withinLine_readUntil isFieldEnd (by decide)).onLine here
        have symbol := ((withinLine_readUntilLastOnLine 0x28).after withinLine_skipSpaces).onLine
          address
        exact rest_readUntil_feed symbol

namespace Record

theorem withinLine_readSwitchFrom (details : String) :
    WithinLine fun c : TextCursor =>
      readSwitch (mark c) details (readUntil (· == 0x0A) c).2 := by
  have toFeed := withinLine_readUntil (· == 0x0A) (by decide)
  have switch := Switch.withinLine_read.bind fun switch =>
    FrameLine.withinLine_toFeed.map fun _ => some switch
  have fork : WithinLine fun c : TextCursor =>
      if hasPrefix details Switch.detailsMark then
        (some (Switch.read c).1, skipTo 0x0A (Switch.read c).2)
      else (none, (readUntil (· == 0x0A) c).2) := by
    by_cases marked : hasPrefix details Switch.detailsMark = true
    · simp only [marked, if_true]
      exact switch
    · simp only [marked]
      exact toFeed.map fun _ => none
  have same : (fun c : TextCursor => readSwitch (mark c) details (readUntil (· == 0x0A) c).2) =
      fun c => if hasPrefix details Switch.detailsMark then
        (some (Switch.read c).1, skipTo 0x0A (Switch.read c).2)
      else (none, (readUntil (· == 0x0A) c).2) := by
    funext c
    rw [readSwitch, restore_mark (sentinel_readUntil _ c)]
  rw [same]
  exact fork

theorem rest_readSwitchFrom (details : String) {c : TextCursor} (line : c.OnLine) :
    (readSwitch (mark c) details (readUntil (· == 0x0A) c).2).2.rest = [] := by
  rw [readSwitch, restore_mark (sentinel_readUntil _ c)]
  split
  · exact rest_skipTo_feed (Switch.withinLine_read.onLine line)
  · exact rest_readUntil_feed line

end Record

/-! ### Where a record ends -/

section
variable {c : TextCursor} {lines : List (List UInt8)}

theorem atRecordEnd_breaks (zero : c.sentinel = 0) (clean : ∀ line ∈ lines, 0x0A ∉ line)
    (text : c.rest = breaks lines) : atRecordEnd c = (lines.head?.all closes, c) := by
  obtain ⟨rest, position, sentinel⟩ := c
  cases zero
  cases text
  cases lines with
  | nil => rfl
  | cons line others =>
    cases line with
    | nil => cases others <;> rfl
    | cons b line =>
      have noFeed : (b == 0x0A) = false := by
        have inside := clean (b :: line) (by simp)
        simp only [List.mem_cons, not_or] at inside
        simpa using fun same => inside.1 same.symm
      simp [atRecordEnd, closes, peek, noFeed, Cursor.sentinel]

theorem atRecordEnd_line {b : UInt8} {rest : List UInt8} (text : c.rest = b :: rest)
    (noFeed : b ≠ 0x0A) : atRecordEnd c = (false, c) := by
  obtain ⟨_, position, sentinel⟩ := c
  cases text
  simp [atRecordEnd, noFeed]

theorem skipToRecordEnd_append {before : List UInt8} (noFeed : 0x0A ∉ before) (rest : List UInt8)
    (position : Nat) :
    skipToRecordEnd (⟨before ++ rest, position, 0⟩ : TextCursor) =
      skipToRecordEnd (⟨rest, position + before.length, 0⟩ : TextCursor) := by
  induction before generalizing position with
  | nil => rfl
  | cons b before ih =>
    simp only [List.mem_cons, not_or] at noFeed
    rw [skipToRecordEnd, atRecordEnd_line rfl (Ne.symm noFeed.1), List.length_cons, Nat.add_comm _ 1,
      ← Nat.add_assoc]
    exact ih noFeed.2 (position + 1)

theorem skipToRecordEnd_breaks {before : List UInt8} (zero : c.sentinel = 0)
    (noFeed : 0x0A ∉ before) (clean : ∀ line ∈ lines, 0x0A ∉ line)
    (text : c.rest = before ++ breaks lines) :
    (skipToRecordEnd c).rest = breaks (afterStack lines) ∧
      (skipToRecordEnd c).sentinel = 0 := by
  obtain ⟨rest, position, sentinel⟩ := c
  obtain rfl : sentinel = 0 := zero
  obtain rfl : rest = before ++ breaks lines := text
  induction lines generalizing before position with
  | nil =>
    rw [skipToRecordEnd_append noFeed, skipToRecordEnd, atRecordEnd_breaks rfl clean rfl]
    exact ⟨rfl, rfl⟩
  | cons line lines ih =>
    rw [skipToRecordEnd_append noFeed, skipToRecordEnd, atRecordEnd_breaks rfl clean rfl]
    cases ends : closes line with
    | true => simp [ends, afterStack_closed ends]
    | false =>
      simp only [List.head?_cons, Option.all_some, ends, afterStack_going ends]
      exact ih (clean line (by simp)) (fun line member => clean line (by simp [member])) _

end

namespace Record

theorem readLines_breaks {c : TextCursor} {lines : List (List UInt8)} (zero : c.sentinel = 0)
    (clean : ∀ line ∈ lines, 0x0A ∉ line) (text : c.rest = breaks lines) :
    (readLines c).1 = (stackOf lines).map FrameLine.ofLine ∧
      (readLines c).2.rest = breaks (afterStack lines) ∧
      (readLines c).2.sentinel = 0 := by
  obtain ⟨rest, position, sentinel⟩ := c
  obtain rfl : sentinel = 0 := zero
  obtain rfl : rest = breaks lines := text
  induction lines generalizing position with
  | nil =>
    rw [readLines, atRecordEnd_breaks rfl clean rfl]
    exact ⟨rfl, rfl, rfl⟩
  | cons line lines ih =>
    rw [readLines, atRecordEnd_breaks rfl clean rfl]
    cases ends : closes line with
    | true => simp [ends, stackOf_closed ends, afterStack_closed ends]
    | false =>
      have alone : (⟨line, 0, 0⟩ : TextCursor).OnLine := ⟨clean line (by simp), rfl⟩
      have read : FrameLine.read (⟨line ++ breaks lines, position + 1, 0⟩ : TextCursor) =
          (FrameLine.ofLine line, ⟨breaks lines,
            position + 1 + (FrameLine.read (⟨line, 0, 0⟩ : TextCursor)).2.position, 0⟩) := by
        have placed := FrameLine.withinLine_read.placed alone (position + 1) (lineTail_breaks lines)
        have zero := (FrameLine.withinLine_read.onLine alone).sentinel
        rwa [TextCursor.placed_of_rest_nil (FrameLine.rest_read alone) zero] at placed
      have more := ih (fun line member => clean line (by simp [member]))
      simp only [List.head?_cons, Option.all_some, ends, Bool.false_eq_true, dite_false, breaks_cons,
        TextCursor.advance_cons, read, stackOf_going ends, afterStack_going ends, List.map_cons]
      exact ⟨congrArg _ (more _).1, (more _).2⟩

/-- After the columns of a header line the body is read from the rest of that line, and from
the lines below it. -/
theorem readBody_eq {c : TextCursor} (line : c.OnLine) (accepts : String → Bool) (header : Header)
    (before : Nat) {lines : List (List UInt8)} (clean : ∀ line ∈ lines, 0x0A ∉ line) :
    ∃ after, readBody accepts header (c.placed before (breaks lines)) =
        (if accepts header.name then
          .event ((Headline.readDetails header c).1.event
            ((stackOf lines).map FrameLine.ofLine))
          else .filtered, after) ∧
      after.rest = breaks (afterStack lines) ∧ after.sentinel = 0 := by
  have ends := lineTail_breaks lines
  have toFeed := withinLine_readUntil (· == 0x0A) (by decide)
  have bytes := toFeed.placed line before ends
  unfold readBody
  simp only [bytes]
  by_cases taken : accepts header.name = true
  · have switch := withinLine_readSwitchFrom (trim (ofBytes (readUntil (· == 0x0A) c).1))
    have placed := switch.placed line before ends
    simp only [bytes] at placed
    rw [TextCursor.placed_of_rest_nil (rest_readSwitchFrom _ line)
      (switch.onLine line).sentinel] at placed
    rw [if_pos taken, if_pos taken, placed]
    generalize before + _ = place
    have below := readLines_breaks (c := ⟨breaks lines, place, 0⟩) rfl clean rfl
    refine ⟨(readLines (⟨breaks lines, place, 0⟩ : TextCursor)).2, ?_, below.2⟩
    simp only [below.1, Headline.readDetails, Headline.event]
    rfl
  · rw [if_neg taken, if_neg taken,
      TextCursor.placed_of_rest_nil (rest_readUntil_feed line) (toFeed.onLine line).sentinel]
    exact ⟨_, rfl, skipToRecordEnd_breaks rfl List.not_mem_nil clean rfl⟩

/-- The first record of a text is read from its own lines, and reading stops before the line
that closes it. -/
theorem read?_eq {c : TextCursor} (zero : c.sentinel = 0) {header : List UInt8}
    {lines : List (List UInt8)} (some : header ≠ []) (noFeed : 0x0A ∉ header)
    (clean : ∀ line ∈ lines, 0x0A ∉ line)
    (text : c.rest.dropWhile isWhitespaceByte = header ++ breaks lines) (accepts : String → Bool) :
    ∃ after, read? accepts c =
        (Option.some ((⟨header, stackOf lines⟩ : RecordLayout).record
          accepts), after) ∧
      after.rest = breaks (afterStack lines) ∧ after.sentinel = 0 := by
  have alone : (⟨header, 0, 0⟩ : TextCursor).OnLine := ⟨noFeed, rfl⟩
  have start : skipWhitespace c = (⟨header, 0, 0⟩ : TextCursor).placed
      (skipWhitespace c).position (breaks lines) := by
    have rest := rest_skipWhile isWhitespaceByte c
    have sentinel := sentinel_skipWhile isWhitespaceByte c
    rw [text] at rest
    rw [zero] at sentinel
    unfold skipWhitespace
    generalize skipWhile isWhitespaceByte c = after at rest sentinel
    obtain ⟨_, position, _⟩ := after
    cases rest
    cases sentinel
    rfl
  have within : atEnd (skipWhitespace c) = false := by
    rw [start]
    obtain ⟨b, header, rfl⟩ := List.exists_cons_of_ne_nil some
    rfl
  obtain ⟨after, body, below⟩ := readBody_eq (Header.withinLine_read.onLine alone) accepts
    (Header.read (⟨header, 0, 0⟩ : TextCursor)).1 (skipWhitespace c).position clean
  refine ⟨after, ?_, below⟩
  unfold read?
  simp only [within, Bool.false_eq_true, if_false]
  rw [start, Header.withinLine_read.placed alone _ (lineTail_breaks lines), body]
  rfl

theorem readAll_none {σ : Type} [Cursor σ] {c after : σ} {accepts : String → Bool}
    (found : read? accepts c = (none, after)) : readAll accepts c = ([], after) := by
  rw [readAll]
  split
  next other => simp_all
  next other => simp_all

theorem readAll_some {σ : Type} [Cursor σ] {c after : σ} {accepts : String → Bool} {record : Record}
    (found : read? accepts c = (some record, after)) :
    readAll accepts c = (record :: (readAll accepts after).1, (readAll accepts after).2) := by
  rw [readAll]
  split
  next other => simp_all
  next other => simp_all

/-- Reading a text gives the records that lie in its lines. Before the lines there may be
blanks, and they may begin with a line feed. -/
theorem fst_readAll (accepts : String → Bool) {lines : List (List UInt8)} {c : TextCursor}
    (zero : c.sentinel = 0) (clean : ∀ line ∈ lines, 0x0A ∉ line)
    (text : c.rest.dropWhile isWhitespaceByte = (breaks lines).dropWhile isWhitespaceByte) :
    (readAll accepts c).1 = (layouts lines).map (RecordLayout.record accepts) := by
  fun_induction layouts lines generalizing c with
  | case1 =>
    have ended : atEnd (skipWhitespace c) = true := by
      have rest := rest_skipWhile isWhitespaceByte c
      rw [text] at rest
      exact List.isEmpty_iff.mpr rest
    have none : read? accepts c = (none, skipWhitespace c) := by simp [read?, ended]
    rw [readAll_none none]
    rfl
  | case2 line rest blank ih =>
    rw [dropWhile_breaks_blank blank] at text
    exact ih zero (fun line member => clean line (by simp [member])) text
  | case3 line rest some ih =>
    have some : isBlankLine line = false := by simpa using some
    have below : ∀ line ∈ rest, 0x0A ∉ line := fun line member => clean line (by simp [member])
    have noFeed : 0x0A ∉ line.dropWhile isWhitespaceByte := fun feed =>
      clean line (by simp) ((List.dropWhile_sublist _).subset feed)
    rw [dropWhile_breaks_text some] at text
    obtain ⟨after, found, left, zero⟩ :=
      read?_eq zero (dropWhile_ne_nil_of_not_all some) noFeed below text accepts
    have more := ih zero (fun line member => below line (mem_of_mem_afterStack member))
      (congrArg _ left)
    rw [readAll_some found, List.map_cons, more]

def byteOrderMark : List UInt8 := [0xEF, 0xBB, 0xBF]

def afterMark (text : List UInt8) : List UInt8 :=
  if text.take 3 = byteOrderMark then text.drop 3 else text

theorem rest_skipByteOrderMark {c : TextCursor} (zero : c.sentinel = 0) :
    (skipByteOrderMark c).rest = afterMark c.rest ∧ (skipByteOrderMark c).sentinel = 0 := by
  obtain ⟨text, position, sentinel⟩ := c
  obtain rfl : sentinel = 0 := zero
  unfold skipByteOrderMark afterMark byteOrderMark
  match text with
  | [] => exact ⟨rfl, rfl⟩
  | [first] => by_cases same : first = 0xEF <;> simp [same, peek]
  | [first, second] =>
    by_cases same : first = 0xEF <;> by_cases next : second = 0xBB <;> simp [same, next, peek]
  | first :: second :: third :: rest =>
    by_cases same : first = 0xEF
    · by_cases next : second = 0xBB
      · by_cases last : third = 0xBF <;> simp [same, next, last, peek]
      · simp [same, next, peek]
    · simp [same]

def layoutsOf (text : List UInt8) : List RecordLayout := layouts (linesOf (afterMark text))

theorem readAll_skipByteOrderMark {c : TextCursor} (zero : c.sentinel = 0)
    (accepts : String → Bool) :
    (readAll accepts (skipByteOrderMark c)).1 =
      (layoutsOf c.rest).map (RecordLayout.record accepts) := by
  have start := rest_skipByteOrderMark zero
  obtain ⟨first, others, lines, whole⟩ := exists_linesOf (afterMark c.rest)
  apply fst_readAll accepts start.2
  · intro line member
    exact noFeed_of_mem_linesOf member
  · rw [start.1, lines, whole, breaks_cons, List.dropWhile_cons_of_pos (by decide)]

theorem ofText_eq (accepts : String → Bool) (text : List UInt8) :
    ofText accepts text = (layoutsOf text).map (RecordLayout.record accepts) :=
  readAll_skipByteOrderMark (c := { rest := text }) rfl accepts

end Record

end ProfileTrace
