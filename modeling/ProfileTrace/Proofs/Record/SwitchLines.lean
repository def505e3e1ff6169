import ProfileTrace.Proofs.Cursor.Integers
import ProfileTrace.Proofs.Record.Columns
import ProfileTrace.Proofs.Record.Streaming

/-! Lines of scheduler switches that are cut short. A line is put together from a switch, column by
column; whatever part of it there is, the columns that the part holds are read back, those that it
does not reach are absent, and nothing behind the line is read. -/

namespace ProfileTrace
open Cursor Text
open TextCursor (passedOnLine rest_skip_of_append skip_skip)

inductive SwitchColumn where
  | previousCommand
  | previousTid
  | previousPriority
  | previousState
  | nextCommand
  | nextTid
  | nextPriority
  deriving DecidableEq

inductive SwitchValue where
  | command (name : String)
  | number (value : Int)
  | state (letter : Char)

namespace Switch

def value (switch : Switch) : SwitchColumn → SwitchValue
  | .previousCommand => .command switch.previousCommand
  | .previousTid => .number switch.previousTid
  | .previousPriority => .number switch.previousPriority
  | .previousState => .state switch.previousState
  | .nextCommand => .command switch.nextCommand
  | .nextTid => .number switch.nextTid
  | .nextPriority => .number switch.nextPriority

/-- The switch with a value in a column, if the column is for values of that kind. -/
def put (switch : Switch) : SwitchColumn → SwitchValue → Switch
  | .previousCommand, .command name => { switch with previousCommand := name }
  | .previousTid, .number tid => { switch with previousTid := tid }
  | .previousPriority, .number priority => { switch with previousPriority := priority }
  | .previousState, .state letter => { switch with previousState := letter }
  | .nextCommand, .command name => { switch with nextCommand := name }
  | .nextTid, .number tid => { switch with nextTid := tid }
  | .nextPriority, .number priority => { switch with nextPriority := priority }
  | _, _ => switch

@[simp] theorem value_put (s t : Switch) (column : SwitchColumn) :
    (s.put column (t.value column)).value column = t.value column := by
  cases column <;> rfl

theorem value_put_of_ne {column other : SwitchColumn} (different : other ≠ column) (s : Switch)
    (value : SwitchValue) : (s.put column value).value other = s.value other := by
  cases column <;> cases value <;> first | rfl | (cases other <;> first | rfl | contradiction)

theorem eq_of_value {s t : Switch} (same : ∀ column, s.value column = t.value column) : s = t := by
  have one := same .previousCommand
  have two := same .previousTid
  have three := same .previousPriority
  have four := same .previousState
  have five := same .nextCommand
  have six := same .nextTid
  have seven := same .nextPriority
  cases s
  cases t
  simp_all [value]

end Switch

namespace SwitchColumn

def all : List SwitchColumn :=
  [.previousCommand, .previousTid, .previousPriority, .previousState, .nextCommand, .nextTid,
    .nextPriority]

theorem mem_all (column : SwitchColumn) : column ∈ all := by
  cases column <;> decide

/-- What stands in front of a value, up to its equals sign. -/
def label : SwitchColumn → List UInt8
  | .previousCommand => toBytes "sched_switch: prev_comm="
  | .previousTid => toBytes " prev_pid="
  | .previousPriority => toBytes " prev_prio="
  | .previousState => toBytes " prev_state="
  | .nextCommand => toBytes " ==> next_comm="
  | .nextTid => toBytes " next_pid="
  | .nextPriority => toBytes " next_prio="

def readValue (column : SwitchColumn) (c : TextCursor) : SwitchValue × TextCursor :=
  match column with
  | .previousCommand | .nextCommand => (Switch.readCommand c).map .command id
  | .previousState => (Switch.readState c).map .state id
  | .previousTid | .previousPriority | .nextTid | .nextPriority => (readInt32 c).map .number id

def field (column : SwitchColumn) : Switch.Field TextCursor :=
  Switch.valueField column.readValue fun s value => s.put column value

/-- The fields that a column is read by: one, behind the arrow if the arrow stands in front. -/
def fields : SwitchColumn → List (Switch.Field TextCursor)
  | .nextCommand => [Switch.arrow, field .nextCommand]
  | column => [field column]

end SwitchColumn

theorem Switch.fields_eq : Switch.fields = SwitchColumn.all.flatMap SwitchColumn.fields := rfl

/-- A switch as its line gives it: names without blanks, and a graphic letter for the state. -/
structure SwitchLine where
  previousCommand : List UInt8
  previousTid : Int32
  previousPriority : Int32
  previousState : UInt8
  nextCommand : List UInt8
  nextTid : Int32
  nextPriority : Int32
  previousPlain : ∀ b ∈ previousCommand, Switch.isCommandEnd b = false
  nextPlain : ∀ b ∈ nextCommand, Switch.isCommandEnd b = false
  graphic : isGraphicByte previousState = true

namespace SwitchLine

def switch (line : SwitchLine) : Switch where
  previousCommand := ofBytes line.previousCommand
  previousTid := line.previousTid.toInt
  previousPriority := line.previousPriority.toInt
  previousState := charOfByte line.previousState
  nextCommand := ofBytes line.nextCommand
  nextTid := line.nextTid.toInt
  nextPriority := line.nextPriority.toInt

def written (line : SwitchLine) : SwitchColumn → List UInt8
  | .previousCommand => line.previousCommand
  | .previousTid => toBytes (toString line.previousTid.toInt)
  | .previousPriority => toBytes (toString line.previousPriority.toInt)
  | .previousState => [line.previousState]
  | .nextCommand => line.nextCommand
  | .nextTid => toBytes (toString line.nextTid.toInt)
  | .nextPriority => toBytes (toString line.nextPriority.toInt)

def span (line : SwitchLine) (column : SwitchColumn) : List UInt8 :=
  column.label ++ line.written column

/-- The text of columns up to the equals sign of one of them. -/
def upTo (line : SwitchLine) (columns : List SwitchColumn) (column : SwitchColumn) : List UInt8 :=
  (columns.takeWhile (· != column)).flatMap line.span ++ column.label

def through (line : SwitchLine) (columns : List SwitchColumn) (column : SwitchColumn) :
    List UInt8 :=
  line.upTo columns column ++ line.written column

def text (line : SwitchLine) : List UInt8 := SwitchColumn.all.flatMap line.span

variable {line : SwitchLine} {column : SwitchColumn} {columns : List SwitchColumn}

@[simp] theorem upTo_cons_self : line.upTo (column :: columns) column = column.label := by
  simp [upTo]

@[simp] theorem upTo_cons_of_ne {other : SwitchColumn} (different : other ≠ column) :
    line.upTo (other :: columns) column = line.span other ++ line.upTo columns column := by
  simp [upTo, different]

theorem through_cons_of_ne {other : SwitchColumn} (different : other ≠ column) :
    line.through (other :: columns) column = line.span other ++ line.through columns column := by
  rw [through, through, upTo_cons_of_ne different, List.append_assoc]

theorem label_prefix_upTo (first column : SwitchColumn) (columns : List SwitchColumn) :
    first.label <+: line.upTo (first :: columns) column := by
  by_cases same : first = column
  · subst same
    simp
  · rw [upTo_cons_of_ne same, span, List.append_assoc]
    exact List.prefix_append _ _

theorem upTo_ne_nil : line.upTo columns column ≠ [] := by
  have label : column.label ≠ [] := by cases column <;> decide
  exact List.append_ne_nil_of_right_ne_nil _ label

theorem prefix_through (among : column ∈ columns) :
    line.through columns column <+: columns.flatMap line.span := by
  induction columns with
  | nil => simp at among
  | cons first columns ih =>
    rw [List.flatMap_cons]
    by_cases same : first = column
    · subst same
      rw [through, upTo_cons_self]
      exact List.prefix_append _ _
    · rw [through_cons_of_ne same]
      exact (List.prefix_append_right_inj _).mpr
        (ih ((List.mem_cons.mp among).resolve_left (Ne.symm same)))

end SwitchLine

/-! ### What a part of a line tells -/

variable {line : SwitchLine} {column : SwitchColumn} {columns : List SwitchColumn}
  {part : List UInt8} {s t u : Switch}

/-- What is read of columns from a part of their text, into a switch: a column whose label is not
whole ends it, and so does one whose value is not, which may be read as any other. -/
inductive CutTells (line : SwitchLine) :
    List SwitchColumn → List UInt8 → Switch → Switch → Prop where
  | done {s : Switch} : CutTells line [] [] s s
  | missed {column : SwitchColumn} {columns : List SwitchColumn} {part : List UInt8} {s : Switch}
      (cut : part <+: column.label) (short : part ≠ column.label) :
      CutTells line (column :: columns) part s s
  | reached {column : SwitchColumn} {columns : List SwitchColumn} {piece more : List UInt8}
      {s t : Switch} {found : SwitchValue} (cut : piece <+: line.written column)
      (given : piece = line.written column → found = line.switch.value column)
      (stops : piece ≠ line.written column → more = [])
      (later : CutTells line columns more (s.put column found) t) :
      CutTells line (column :: columns) (column.label ++ (piece ++ more)) s t

namespace CutTells

theorem value_of_not_mem (tells : CutTells line columns part s t) (none : column ∉ columns) :
    t.value column = s.value column := by
  induction tells with
  | done => rfl
  | missed => rfl
  | reached cut given stops later ih =>
    rw [List.mem_cons, not_or] at none
    rw [ih none.2, Switch.value_put_of_ne none.1]

theorem eq_of_inside {piece more whole : List UInt8} (cut : piece <+: whole)
    (stops : piece ≠ whole → more = []) (inside : whole <+: piece ++ more) : piece = whole := by
  by_contra short
  rw [stops short, List.append_nil] at inside
  exact short (cut.eq_of_length (Nat.le_antisymm cut.length_le inside.length_le))

theorem value (tells : CutTells line columns part s t) (once : columns.Nodup)
    (among : column ∈ columns) :
    (line.through columns column <+: part → t.value column = line.switch.value column) ∧
      (¬line.upTo columns column <+: part → t.value column = s.value column) := by
  induction tells with
  | done => simp at among
  | @missed first columns part s cut short =>
    refine ⟨fun whole => absurd ?_ short, fun _ => rfl⟩
    have inside : first.label <+: part :=
      (SwitchLine.label_prefix_upTo first column columns).trans
        ((List.prefix_append _ _).trans whole)
    exact cut.eq_of_length (Nat.le_antisymm cut.length_le inside.length_le)
  | @reached first columns piece more s t found cut given stops later ih =>
    obtain ⟨fresh, once⟩ := List.nodup_cons.mp once
    by_cases same : first = column
    · subst same
      refine ⟨fun whole => ?_, fun outside => absurd ?_ outside⟩
      · rw [SwitchLine.through, SwitchLine.upTo_cons_self, List.prefix_append_right_inj] at whole
        rw [later.value_of_not_mem fresh, given (eq_of_inside cut stops whole), Switch.value_put]
      · rw [SwitchLine.upTo_cons_self]
        exact List.prefix_append _ _
    · have behind := ih once ((List.mem_cons.mp among).resolve_left (Ne.symm same))
      refine ⟨fun whole => ?_, fun outside => ?_⟩
      · rw [SwitchLine.through_cons_of_ne same, SwitchLine.span, List.append_assoc,
          List.prefix_append_right_inj] at whole
        obtain rfl := eq_of_inside cut stops ((List.prefix_append _ _).trans whole)
        exact behind.1 ((List.prefix_append_right_inj _).mp whole)
      · rw [← Switch.value_put_of_ne (Ne.symm same) s found]
        refine behind.2 fun inside => outside ?_
        by_cases short : piece = line.written first
        · rw [SwitchLine.upTo_cons_of_ne same, SwitchLine.span, List.append_assoc, short]
          exact (List.prefix_append_right_inj _).mpr ((List.prefix_append_right_inj _).mpr inside)
        · rw [stops short] at inside
          exact absurd (List.prefix_nil.mp inside) SwitchLine.upTo_ne_nil

end CutTells

/-! ### Reading a column -/

/-- The value ends here: the line does, or the value is whole and a blank follows it. -/
def Closes (piece whole rest : List UInt8) : Prop :=
  EndsRun (· != 0x0A) rest ∨ piece = whole ∧ EndsRun (!Switch.isCommandEnd ·) rest

theorem endsRun_of_lineEnd {rest : List UInt8} (feed : EndsRun (· != 0x0A) rest) :
    EndsRun (!Switch.isCommandEnd ·) rest := by
  intro b first
  obtain rfl : b = 0x0A := by simpa using feed b first
  decide

theorem Closes.ends {piece whole rest : List UInt8} (closes : Closes piece whole rest) :
    EndsRun (!Switch.isCommandEnd ·) rest :=
  closes.elim endsRun_of_lineEnd And.right

/-- A part of the text of a value is read to its end, and the whole as the value. -/
def Takes {α : Type} (readValue : TextCursor → α × TextCursor) (whole : List UInt8) (value : α) :
    Prop :=
  ∀ {c : TextCursor} {piece rest : List UInt8}, c.sentinel = 0 → c.rest = piece ++ rest →
    piece <+: whole → Closes piece whole rest →
      ∃ found, readValue c = (found, c.skip piece.length) ∧ (piece = whole → found = value)

theorem takes_readCommand {name : List UInt8}
    (plain : ∀ b ∈ name, Switch.isCommandEnd b = false) :
    Takes Switch.readCommand name (ofBytes name) := by
  intro c piece rest _ ahead cut closes
  have read := readUntil_eq_of_run ahead (fun b inside => plain b (cut.subset inside)) closes.ends
  refine ⟨ofBytes piece, ?_, fun whole => by rw [whole]⟩
  rw [Switch.readCommand, read]

theorem takes_readState {letter : UInt8} (graphic : isGraphicByte letter = true) :
    Takes Switch.readState [letter] (charOfByte letter) := by
  rintro ⟨text, position, sentinel⟩ piece rest rfl rfl cut closes
  rcases List.prefix_cons_iff.mp cut with rfl | ⟨none, rfl, nothing⟩
  · have feed := closes.resolve_right fun whole => List.cons_ne_nil _ _ whole.1.symm
    refine ⟨'\x00', ?_, fun whole => absurd whole.symm (List.cons_ne_nil _ _)⟩
    cases rest with
    | nil => rfl
    | cons b rest =>
      obtain rfl : b = 0x0A := by simpa using feed b rfl
      rfl
  · obtain rfl := List.prefix_nil.mp nothing
    refine ⟨charOfByte letter, ?_, fun _ => rfl⟩
    simp [Switch.readState, graphic, TextCursor.skip]

theorem takes_readInt32 (i : Int32) : Takes readInt32 (toBytes (toString i.toInt)) i.toInt := by
  have low : -2 ^ 31 ≤ i.toInt := i.le_toInt
  have high : i.toInt < 2 ^ 31 := i.toInt_lt
  intro c piece rest zero ahead cut closes
  have noDigit : isHexDigit c.sentinel = false := by
    rw [zero]
    decide
  have read : ∀ {n : Numeral}, n.Opens (piece ++ rest) → n.length = piece.length →
      readInt32 c =
        (if -0x80000000 ≤ n.reading ∧ n.reading < 0x80000000 then n.reading else absent,
          c.skip piece.length) := by
    intro n opens length
    rw [readInt32, readInt_eq noDigit, ahead, opens.integerOf_eq, length]
  have ends : EndsRun continuesNumber rest := by
    intro b first
    have blank : Switch.isCommandEnd b = true := by simpa using closes.ends b first
    simp only [Switch.isCommandEnd, isSpaceByte, Bool.or_eq_true, beq_iff_eq] at blank
    rcases blank with (rfl | rfl) | rfl <;> decide
  by_cases whole : piece = toBytes (toString i.toInt)
  · subst whole
    have found := read (Numeral.opens_written i.toInt ends) (Numeral.length_written i.toInt rest)
    rw [Numeral.reading_written (by omega) (by omega), if_pos ⟨low, high⟩] at found
    exact ⟨i.toInt, found, fun _ => rfl⟩
  · have feed := closes.resolve_right fun closed => whole closed.1
    obtain ⟨sign, digits, rfl, signed, all⟩ := Numeral.exists_digits cut
    have opens := Numeral.opens_of_digits signed all ends fun _ => feed
    rw [← List.append_assoc] at opens
    have length : (⟨[], sign, [], digits, rest⟩ : Numeral).length = (sign ++ digits).length := by
      simp [Numeral.length]
    exact ⟨_, read opens length, fun same => absurd same whole⟩

theorem Takes.map {α β : Type} {readValue : TextCursor → α × TextCursor} {whole : List UInt8}
    {value : α} (takes : Takes readValue whole value) (kind : α → β) :
    Takes (fun c => (readValue c).map kind id) whole (kind value) := by
  intro c piece rest zero ahead cut closes
  obtain ⟨found, read, given⟩ := takes zero ahead cut closes
  refine ⟨kind found, ?_, fun same => congrArg kind (given same)⟩
  simp only [read, Prod.map, id]

theorem takes_written (line : SwitchLine) (column : SwitchColumn) :
    Takes column.readValue (line.written column) (line.switch.value column) := by
  cases column with
  | previousCommand => exact Takes.map (takes_readCommand line.previousPlain) SwitchValue.command
  | nextCommand => exact Takes.map (takes_readCommand line.nextPlain) SwitchValue.command
  | previousState => exact Takes.map (takes_readState line.graphic) SwitchValue.state
  | previousTid | previousPriority | nextTid | nextPriority =>
    exact Takes.map (takes_readInt32 _) SwitchValue.number

theorem exists_cut {whole later : List UInt8} (cut : part <+: whole ++ later) :
    ∃ piece more, part = piece ++ more ∧ piece <+: whole ∧ more <+: later ∧
      (piece ≠ whole → more = []) := by
  rcases List.prefix_or_prefix_of_prefix cut (List.prefix_append whole later) with
    short | ⟨more, rfl⟩
  · exact ⟨part, [], (List.append_nil part).symm, short, List.nil_prefix, fun _ => rfl⟩
  · exact ⟨whole, more, rfl, List.prefix_refl whole, (List.prefix_append_right_inj whole).mp cut,
      fun different => absurd rfl different⟩

/-! ### Coming to a column -/

theorem skipPast_of_found {target : UInt8} {c : TextCursor} {front more : List UInt8}
    (ahead : c.rest = front ++ target :: more) (plain : ∀ b ∈ front, passedOnLine target b = true) :
    Switch.skipPast target c = (true, c.skip (front.length + 1)) := by
  have ends : EndsRun (passedOnLine target) (target :: more) := .of_head (by simp [passedOnLine]) _
  rw [Switch.skipPast_eq, ahead, ends.takeWhile_append plain, ends.dropWhile_append plain]
  simp

theorem skipPast_of_missing {target : UInt8} (other : target ≠ 0x0A) {c : TextCursor}
    {front rest : List UInt8} (ahead : c.rest = front ++ rest)
    (plain : ∀ b ∈ front, passedOnLine target b = true) (feed : EndsRun (· != 0x0A) rest) :
    Switch.skipPast target c = (false, c.skip front.length) := by
  have first : ∀ b, rest.head? = some b → b = 0x0A := fun b here => by simpa using feed b here
  have ends : EndsRun (passedOnLine target) rest := by
    intro b here
    obtain rfl := first b here
    simp [passedOnLine]
  have none : (rest.head? == some target) = false := by
    rw [beq_eq_false_iff_ne]
    exact fun here => other (first target here)
  rw [Switch.skipPast_eq, ahead, ends.takeWhile_append plain, ends.dropWhile_append plain, none]
  rfl

/-- A label leads to a field: the line ends in a part of it, or the field is read behind it. -/
structure Leads (chosen : List (Switch.Field TextCursor)) (label : List UInt8)
    (field : Switch.Field TextCursor) : Prop where
  missed : ∀ {others : List (Switch.Field TextCursor)} {s : Switch} {c : TextCursor}
    {piece rest : List UInt8}, c.rest = piece ++ rest → piece <+: label → piece ≠ label →
      EndsRun (· != 0x0A) rest →
        Switch.readFields (chosen ++ others) s c = (s, c.skip piece.length)
  reached : ∀ {others : List (Switch.Field TextCursor)} {s : Switch} {c : TextCursor}
    {more : List UInt8}, c.rest = label ++ more →
      Switch.readFields (chosen ++ others) s c =
        Switch.readFields others (field.read s (c.skip label.length)).1
          (field.read s (c.skip label.length)).2

namespace Leads
variable {field : Switch.Field TextCursor} {chosen : List (Switch.Field TextCursor)}
  {front label : List UInt8}

theorem single (other : field.separator ≠ 0x0A)
    (plain : ∀ b ∈ front, passedOnLine field.separator b = true) :
    Leads [field] (front ++ [field.separator]) field where
  missed {others s c piece rest} ahead cut short feed := by
    have before := (List.prefix_concat_iff.mp cut).resolve_left short
    have missing := skipPast_of_missing other ahead (fun b inside => plain b (before.subset inside))
      feed
    rw [List.singleton_append, Switch.readFields, missing]
  reached {others s c more} ahead := by
    have found := skipPast_of_found
      (show c.rest = front ++ field.separator :: more by rw [ahead, List.append_assoc]; rfl) plain
    rw [List.singleton_append, Switch.readFields, found, List.length_append,
      List.length_singleton]

theorem readFields_arrow (plain : ∀ b ∈ front, passedOnLine 0x3E b = true)
    {others : List (Switch.Field TextCursor)} {c : TextCursor} {more : List UInt8}
    (ahead : c.rest = front ++ [0x3E] ++ more) :
    Switch.readFields (Switch.arrow :: others) s c =
      Switch.readFields others s (c.skip (front ++ [0x3E]).length) := by
  have found := skipPast_of_found
    (show c.rest = front ++ 0x3E :: more by rw [ahead, List.append_assoc]; rfl) plain
  rw [Switch.readFields, Switch.arrow, found, List.length_append, List.length_singleton]

theorem behind_arrow (leads : Leads chosen label field) (front : List UInt8)
    (plain : ∀ b ∈ front, passedOnLine 0x3E b = true) :
    Leads (Switch.arrow :: chosen) (front ++ [0x3E] ++ label) field where
  missed {others s c part rest} ahead cut short feed := by
    obtain ⟨piece, more, rfl, arrowCut, labelCut, stops⟩ := exists_cut cut
    by_cases passed : piece = front ++ [0x3E]
    · subst passed
      have behind : more ≠ label := fun same => short (by rw [same])
      have next := rest_skip_of_append (ahead.trans (List.append_assoc _ _ _))
      rw [List.cons_append, readFields_arrow plain (ahead.trans (List.append_assoc _ _ _)),
        leads.missed next labelCut behind feed, skip_skip, ← List.length_append]
    · obtain rfl := stops passed
      rw [List.append_nil] at ahead ⊢
      have before := (List.prefix_concat_iff.mp arrowCut).resolve_left passed
      have other : (0x3E : UInt8) ≠ 0x0A := by decide
      have missing := skipPast_of_missing other ahead
        (fun b inside => plain b (before.subset inside)) feed
      rw [List.cons_append, Switch.readFields, Switch.arrow, missing]
  reached {others s c more} ahead := by
    rw [List.append_assoc] at ahead
    rw [List.cons_append, readFields_arrow plain ahead, leads.reached (rest_skip_of_append ahead),
      skip_skip, ← List.length_append]

end Leads

theorem SwitchColumn.leads (column : SwitchColumn) :
    Leads column.fields column.label column.field := by
  have behind : ∀ (front : String) {column : SwitchColumn},
      (∀ b ∈ toBytes front, passedOnLine 0x3D b = true) →
        Leads [column.field] (toBytes front ++ [0x3D]) column.field :=
    fun _ _ plain => .single (show (0x3D : UInt8) ≠ 0x0A by decide) plain
  cases column with
  | previousCommand => exact behind "sched_switch: prev_comm" (by decide)
  | previousTid => exact behind " prev_pid" (by decide)
  | previousPriority => exact behind " prev_prio" (by decide)
  | previousState => exact behind " prev_state" (by decide)
  | nextCommand =>
    exact (behind " next_comm" (by decide)).behind_arrow (toBytes " ==") (by decide)
  | nextTid => exact behind " next_pid" (by decide)
  | nextPriority => exact behind " next_prio" (by decide)

theorem readFields_of_label (line : SwitchLine) (column : SwitchColumn)
    {others : List (Switch.Field TextCursor)} {c : TextCursor} {piece rest : List UInt8}
    (zero : c.sentinel = 0) (ahead : c.rest = column.label ++ (piece ++ rest))
    (cut : piece <+: line.written column) (closes : Closes piece (line.written column) rest) :
    ∃ found, Switch.readFields (column.fields ++ others) s c =
        Switch.readFields others (s.put column found) (c.skip (column.label ++ piece).length) ∧
      (piece = line.written column → found = line.switch.value column) := by
  obtain ⟨found, read, given⟩ := takes_written line column (c := c.skip column.label.length) zero
    (rest_skip_of_append ahead) cut closes
  refine ⟨found, ?_, given⟩
  rw [column.leads.reached ahead, SwitchColumn.field, Switch.valueField]
  simp only [read, skip_skip, List.length_append]

/-! ### Reading a line -/

theorem head?_label (later : column ≠ .previousCommand) : column.label.head? = some 0x20 := by
  cases column <;> first | decide | contradiction

theorem endsRun_columns (later : .previousCommand ∉ columns) {more rest : List UInt8}
    (cut : more <+: columns.flatMap line.span) (feed : EndsRun (· != 0x0A) rest) :
    EndsRun (!Switch.isCommandEnd ·) (more ++ rest) := by
  cases more with
  | nil => exact endsRun_of_lineEnd feed
  | cons b more =>
    cases columns with
    | nil => simp at cut
    | cons column columns =>
      have space := head?_label fun same => later (same ▸ List.mem_cons_self)
      obtain ⟨label, shape⟩ := List.head?_eq_some_iff.mp space
      rw [List.flatMap_cons, SwitchLine.span, shape, List.cons_append, List.cons_append,
        List.cons_prefix_cons] at cut
      rw [cut.1]
      exact .of_head (by decide) _

theorem readFields_of_cut (line : SwitchLine) {rest : List UInt8}
    (feed : EndsRun (· != 0x0A) rest) {c : TextCursor} (zero : c.sentinel = 0)
    (later : .previousCommand ∉ columns.tail) (cut : part <+: columns.flatMap line.span)
    (ahead : c.rest = part ++ rest) :
    ∃ t, Switch.readFields (columns.flatMap SwitchColumn.fields) s c = (t, c.skip part.length) ∧
      CutTells line columns part s t := by
  induction columns generalizing part c s with
  | nil =>
    obtain rfl := List.prefix_nil.mp cut
    exact ⟨s, rfl, .done⟩
  | cons column columns ih =>
    rw [List.flatMap_cons, SwitchLine.span, List.append_assoc] at cut
    obtain ⟨label, behind, rfl, labelCut, behindCut, labelStops⟩ := exists_cut cut
    rw [List.flatMap_cons]
    by_cases whole : label = column.label
    · subst whole
      obtain ⟨piece, more, rfl, pieceCut, moreCut, stops⟩ := exists_cut behindCut
      have closes : Closes piece (line.written column) (more ++ rest) := by
        by_cases short : piece = line.written column
        · exact Or.inr ⟨short, endsRun_columns later moreCut feed⟩
        · rw [stops short]
          exact Or.inl feed
      have place : c.rest = column.label ++ (piece ++ (more ++ rest)) := by
        rw [ahead, List.append_assoc, List.append_assoc]
      obtain ⟨found, read, given⟩ := readFields_of_label line column zero place pieceCut closes
      have next : (c.skip (column.label ++ piece).length).rest = more ++ rest :=
        rest_skip_of_append (by rw [place, List.append_assoc])
      obtain ⟨t, run, tells⟩ := ih (c := c.skip (column.label ++ piece).length) zero
        (fun among => later (List.mem_of_mem_tail among)) moreCut next
      refine ⟨t, ?_, .reached pieceCut given stops tells⟩
      rw [read, run, skip_skip, ← List.length_append, List.append_assoc]
    · obtain rfl := labelStops whole
      rw [List.append_nil] at ahead ⊢
      exact ⟨s, column.leads.missed ahead labelCut whole feed, .missed labelCut whole⟩

theorem SwitchLine.eq_switch {line : SwitchLine}
    (tells : CutTells line SwitchColumn.all line.text s t) : t = line.switch :=
  Switch.eq_of_value fun column =>
    (tells.value (by decide) column.mem_all).1 (SwitchLine.prefix_through column.mem_all)

namespace StreamCursor

variable {content : List UInt8} {c : StreamCursor}

/-- From any part of a line of a switch, behind which the source ends or the line does, all columns
that are whole in the part have their values, and those whose equals sign is not in it are absent.
The cursor is left where the part ends; from the whole line the switch is read back. -/
theorem read_of_cut_switchLine (settled : Settled content c) (default : c.sentinel = 0)
    (line : SwitchLine) {part rest : List UInt8} (cut : part <+: line.text)
    (ends : EndsRun (· != 0x0A) rest) (ahead : content.drop c.position = part ++ rest) :
    (∀ column,
      (line.through SwitchColumn.all column <+: part →
        (Switch.read c).1.value column = line.switch.value column) ∧
      (¬line.upTo SwitchColumn.all column <+: part →
        (Switch.read c).1.value column = ({} : Switch).value column)) ∧
    (part = line.text → (Switch.read c).1 = line.switch) ∧
    Settled content (Switch.read c).2 ∧
    (Switch.read c).2.position = c.position + part.length ∧
    content.drop (Switch.read c).2.position = rest := by
  obtain ⟨t, fields, tells⟩ := readFields_of_cut (s := {}) line ends (c := c.overText content)
    default (by decide) cut ahead
  have read : Switch.read (c.overText content) = (t, (c.overText content).skip part.length) := by
    rw [Switch.read, Switch.fields_eq, fields]
  obtain ⟨value, after, moved⟩ := settled.performed (Switch.respects_read _) read
  have place : (Switch.read c).2.position = c.position + part.length :=
    congrArg PlainCursor.position moved
  refine ⟨fun column => ?_, ?_, after, place, ?_⟩
  · rw [value]
    exact tells.value (by decide) column.mem_all
  · rintro rfl
    rw [value]
    exact SwitchLine.eq_switch tells
  · rw [place, ← List.drop_drop, ahead, List.drop_left]

/-- A switch whose names and letter hold the separators. -/
def trickySwitch : SwitchLine where
  previousCommand := toBytes "a=b>c"
  previousTid := -2147483648
  previousPriority := 120
  previousState := 0x3D
  nextCommand := toBytes ">"
  nextTid := 7
  nextPriority := -1
  previousPlain := by decide
  nextPlain := by decide
  graphic := by decide

/-- A part of its line that ends within a label. -/
def trickyPart : List UInt8 :=
  toBytes ("sched_switch: prev_comm=a=b>c prev_pid=-2147483648 prev_prio=120 prev_state== ==> " ++
    "next_comm=> next_pi")

def slowSwitch : Reader := .slow (trickyPart ++ toBytes "\nnext_pid=99\n") 0

theorem read_of_cut_switchLine_slowSwitch :
    Settled slowSwitch.content (ofReader slowSwitch 0 0) ∧
      trickyPart <+: trickySwitch.text ∧
      EndsRun (· != 0x0A) (toBytes "\nnext_pid=99\n") ∧
      (Switch.read (ofReader slowSwitch 0 0)).1 =
        { previousCommand := "a=b>c", previousTid := -2147483648, previousPriority := 120,
          previousState := '=', nextCommand := ">" } ∧
      (Switch.read (ofReader slowSwitch 0 0)).2.position = trickyPart.length := by
  have calm : slowSwitch.Faultless := Reader.faultless_slow _ _
  have settled := settled_ofReader calm rfl 0 0
  have start := position_ofReader calm 0 0
  obtain ⟨cut, whole, outside⟩ : trickyPart <+: trickySwitch.text ∧
      (∀ column ∈ SwitchColumn.all.take 5,
        trickySwitch.through SwitchColumn.all column <+: trickyPart) ∧
      ∀ column ∈ SwitchColumn.all.drop 5,
        ¬trickySwitch.upTo SwitchColumn.all column <+: trickyPart := by
    decide +kernel
  have ends : EndsRun (· != 0x0A) (toBytes "\nnext_pid=99\n") := .of_head (by decide) _
  have ahead : slowSwitch.content.drop (ofReader slowSwitch 0 0).position =
      trickyPart ++ toBytes "\nnext_pid=99\n" := by
    rw [start]
    rfl
  obtain ⟨columns, -, -, place, -⟩ := read_of_cut_switchLine settled
    (sentinel_ofReader slowSwitch 0 0) trickySwitch cut ends ahead
  refine ⟨settled, cut, ends, Switch.eq_of_value fun column => ?_, ?_⟩
  · cases column with
    | nextTid => exact (columns .nextTid).2 (outside _ (by decide))
    | nextPriority => exact (columns .nextPriority).2 (outside _ (by decide))
    | previousCommand => exact (columns .previousCommand).1 (whole _ (by decide))
    | previousTid => exact (columns .previousTid).1 (whole _ (by decide))
    | previousPriority => exact (columns .previousPriority).1 (whole _ (by decide))
    | previousState => exact (columns .previousState).1 (whole _ (by decide))
    | nextCommand => exact (columns .nextCommand).1 (whole _ (by decide))
  · rw [place, start]
    exact Nat.zero_add _

end StreamCursor

end ProfileTrace
