import Mathlib.Data.List.Forall2
import ProfileTrace.Proofs.Record.Cutting

/-! Records as they are written: a header line, the lines of a stack and an empty line. A text
of such records holds just these, and an event whose stack was cut short is a part of the event
of its whole record. -/

namespace ProfileTrace
open Cursor Text
open Record (linesOf_append_feed linesOf_feed linesOf_nil cutText)

structure IsStackLine (line : List UInt8) : Prop where
  noFeed : 0x0A ∉ line
  begins : ∃ b, line.head? = some b ∧ b ≠ 0x0D ∧ b ≠ 0
  noMarker : (line.dropWhile isSpaceByte).head? ≠ some cutMarker

instance (line : List UInt8) : Decidable (IsStackLine line) :=
  have : Decidable (∃ b, line.head? = some b ∧ b ≠ 0x0D ∧ b ≠ 0) :=
    inferInstanceAs (Decidable (∃ b ∈ line.head?, b ≠ 0x0D ∧ b ≠ 0))
  decidable_of_iff (0x0A ∉ line ∧ (∃ b, line.head? = some b ∧ b ≠ 0x0D ∧ b ≠ 0) ∧
      (line.dropWhile isSpaceByte).head? ≠ some cutMarker)
    ⟨fun ⟨noFeed, begins, noMarker⟩ => ⟨noFeed, begins, noMarker⟩,
      fun stack => ⟨stack.noFeed, stack.begins, stack.noMarker⟩⟩

theorem IsStackLine.going {line : List UInt8} (stack : IsStackLine line) : closes line = false := by
  obtain ⟨b, begins, noReturn, noNul⟩ := stack.begins
  simp [closes, begins, noReturn, noNul]

namespace RecordLayout

def bytes (layout : RecordLayout) : List UInt8 :=
  layout.header ++ 0x0A :: (layout.lines.flatMap (· ++ [0x0A]) ++ [0x0A])

structure WellFormed (layout : RecordLayout) : Prop where
  begins : ∃ b, layout.header.head? = some b ∧ isWhitespaceByte b = false
  noFeed : 0x0A ∉ layout.header
  stack : ∀ line ∈ layout.lines, IsStackLine line

instance (layout : RecordLayout) : Decidable layout.WellFormed :=
  have : Decidable (∃ b, layout.header.head? = some b ∧ isWhitespaceByte b = false) :=
    inferInstanceAs (Decidable (∃ b ∈ layout.header.head?, isWhitespaceByte b = false))
  decidable_of_iff ((∃ b, layout.header.head? = some b ∧ isWhitespaceByte b = false) ∧
      0x0A ∉ layout.header ∧ ∀ line ∈ layout.lines, IsStackLine line)
    ⟨fun ⟨begins, noFeed, stack⟩ => ⟨begins, noFeed, stack⟩,
      fun wellFormed => ⟨wellFormed.begins, wellFormed.noFeed, wellFormed.stack⟩⟩

end RecordLayout

theorem RecordLayout.WellFormed.isBlankLine_header {record : RecordLayout}
    (wellFormed : record.WellFormed) : isBlankLine record.header = false := by
  obtain ⟨b, begins, text⟩ := wellFormed.begins
  obtain ⟨others, shape⟩ := List.head?_eq_some_iff.mp begins
  simp [isBlankLine, shape, text]

def recordLines (records : List RecordLayout) : List (List UInt8) :=
  records.flatMap (fun record => record.header :: (record.lines ++ [[]])) ++ [[]]

theorem recordLines_cons (record : RecordLayout) (records : List RecordLayout) :
    recordLines (record :: records) =
      record.header :: (record.lines ++ [] :: recordLines records) := by
  simp [recordLines]

theorem linesOf_append_lines {lines : List (List UInt8)} (clean : ∀ line ∈ lines, 0x0A ∉ line)
    (text : List UInt8) : linesOf (lines.flatMap (· ++ [0x0A]) ++ text) = lines ++ linesOf text := by
  induction lines with
  | nil => rfl
  | cons line lines ih =>
    have alone : linesOf line = [line] := List.splitOn_eq_singleton (clean line (by simp))
    have rest := ih fun line among => clean line (List.mem_cons_of_mem _ among)
    rw [List.flatMap_cons, List.append_assoc, List.append_assoc, List.singleton_append,
      linesOf_append_feed, alone, rest]
    rfl

theorem linesOf_flatMap_bytes {records : List RecordLayout}
    (wellFormed : ∀ record ∈ records, record.WellFormed) :
    linesOf (records.flatMap RecordLayout.bytes) = recordLines records := by
  induction records with
  | nil => exact linesOf_nil
  | cons record records ih =>
    have this := wellFormed record List.mem_cons_self
    have alone : linesOf record.header = [record.header] := List.splitOn_eq_singleton this.noFeed
    have rest := ih fun record among => wellFormed record (List.mem_cons_of_mem _ among)
    rw [List.flatMap_cons, RecordLayout.bytes, List.append_assoc, List.cons_append,
      List.append_assoc, List.singleton_append, linesOf_append_feed, alone,
      linesOf_append_lines fun line among => (this.stack line among).noFeed, linesOf_feed, rest,
      recordLines_cons]
    rfl

theorem layouts_recordLines {records : List RecordLayout}
    (wellFormed : ∀ record ∈ records, record.WellFormed) : layouts (recordLines records) = records := by
  induction records with
  | nil => exact (layouts_blank rfl []).trans layouts_nil
  | cons record records ih =>
    have this := wellFormed record List.mem_cons_self
    have rest := ih fun record among => wellFormed record (List.mem_cons_of_mem _ among)
    obtain ⟨b, begins, text⟩ := this.begins
    obtain ⟨others, shape⟩ := List.head?_eq_some_iff.mp begins
    have header := this.isBlankLine_header
    have whole : record.header.dropWhile isWhitespaceByte = record.header := by
      rw [shape, List.dropWhile_cons_of_neg (by simp [text])]
    have going : ∀ line ∈ record.lines, (!closes line) = true := by
      intro line among
      simp [(this.stack line among).going]
    have stack : stackOf (record.lines ++ [] :: recordLines records) = record.lines := by
      rw [stackOf, List.takeWhile_append_of_pos going]
      simp [closes]
    have below : afterStack (record.lines ++ [] :: recordLines records) = [] :: recordLines records := by
      rw [afterStack, List.dropWhile_append_of_pos going]
      simp [closes]
    rw [recordLines_cons, layouts_header header, whole, stack, below, layouts_blank rfl, rest]

/-- Where the lines of records, with empty lines before them, are parted: before the first
record, after an empty line, or inside a record, before what is left of its stack. -/
inductive Parted (gap : Nat) (records : List RecordLayout) (before after : List (List UInt8)) :
    Prop where
  | ahead (left : Nat) (small : left ≤ gap) (blank : ∀ line ∈ before, line = [])
      (rest : after = List.replicate left [] ++ recordLines records)
  | between (later : List RecordLayout) (among : later <:+ records)
      (last : before.getLast? = some []) (rest : after = recordLines later)
  | inside (later : List RecordLayout) (stack : List (List UInt8)) (among : later <:+ records)
      (header : ∃ line ∈ before, isBlankLine line = false)
      (going : ∀ line ∈ stack, IsStackLine line) (rest : after = stack ++ [] :: recordLines later)

theorem getLast?_of_empty {lines : List (List UInt8)} (blank : ∀ line ∈ lines, line = []) :
    ([] :: lines).getLast? = some [] := by
  rw [List.getLast?_eq_some_getLast (List.cons_ne_nil _ _), Option.some.injEq]
  rcases List.mem_cons.mp (List.getLast_mem (List.cons_ne_nil [] lines)) with same | among
  · exact same
  · exact blank _ among

theorem parted_recordLines {records : List RecordLayout}
    (wellFormed : ∀ record ∈ records, record.WellFormed) {before after : List (List UInt8)}
    (some : after ≠ []) (whole : before ++ after = recordLines records) :
    Parted 0 records before after := by
  induction records generalizing before with
  | nil =>
    cases before with
    | nil => exact .ahead 0 (Nat.le_refl 0) (by simp) whole
    | cons line before =>
      have short := congrArg List.length whole
      have long := List.length_pos_iff.mpr some
      simp only [recordLines, List.length_append, List.length_cons, List.flatMap_nil,
        List.length_nil] at short
      omega
  | cons record records ih =>
    have this := wellFormed record List.mem_cons_self
    have tail : records <:+ record :: records := List.suffix_cons record records
    cases before with
    | nil => exact .ahead 0 (Nat.le_refl 0) (by simp) whole
    | cons header before =>
      rw [recordLines_cons, List.cons_append, List.cons.injEq] at whole
      obtain ⟨rfl, whole⟩ := whole
      have text : ∃ line ∈ record.header :: before, isBlankLine line = false :=
        ⟨_, List.mem_cons_self, this.isBlankLine_header⟩
      rcases List.append_eq_append_iff.mp whole with ⟨stack, parts, rest⟩ | ⟨more, parts, rest⟩
      · refine .inside records stack tail text ?_ rest
        intro line among
        exact this.stack line (parts ▸ List.mem_append_right before among)
      · cases more with
        | nil => exact .inside records [] tail text (by simp) rest.symm
        | cons line more =>
          rw [List.cons_append, List.cons.injEq] at rest
          obtain ⟨rfl, rest⟩ := rest
          rw [parts, ← List.cons_append]
          cases ih (fun record among => wellFormed record (List.mem_cons_of_mem _ among))
            rest.symm with
          | ahead left small blank rest =>
            refine .between records tail ?_ ?_
            · rw [List.getLast?_append, getLast?_of_empty blank]
              rfl
            · rwa [Nat.le_zero.mp small] at rest
          | between later among last rest =>
            refine .between later (among.trans tail) ?_ rest
            simp [List.getLast?_append, List.getLast?_cons, last]
          | inside later stack among header going rest =>
            obtain ⟨line, inside, text⟩ := header
            refine .inside later stack (among.trans tail) ⟨line, ?_, text⟩ going rest
            simp [inside]

theorem parted {records : List RecordLayout} (wellFormed : ∀ record ∈ records, record.WellFormed)
    (gap : Nat) {before after : List (List UInt8)} (some : after ≠ [])
    (whole : before ++ after = List.replicate gap [] ++ recordLines records) :
    Parted gap records before after := by
  induction gap generalizing before with
  | zero => exact parted_recordLines wellFormed some whole
  | succ gap ih =>
    cases before with
    | nil => exact .ahead (gap + 1) (Nat.le_refl _) (by simp) whole
    | cons line before =>
      rw [List.replicate_succ, List.cons_append, List.cons_append, List.cons.injEq] at whole
      obtain ⟨rfl, whole⟩ := whole
      cases ih whole with
      | ahead left small blank rest =>
        refine .ahead left (Nat.le_succ_of_le small) ?_ rest
        intro line among
        rcases List.mem_cons.mp among with same | inside
        · exact same
        · exact blank line inside
      | between later among last rest =>
        exact .between later among (by simp [List.getLast?_cons, last]) rest
      | inside later stack among header going rest =>
        obtain ⟨line, inside, text⟩ := header
        exact .inside later stack among ⟨line, List.mem_cons_of_mem _ inside, text⟩ going rest

/-! ### Stacks cut short -/

namespace Event

def codeFrames (event : Event) : List Frame := event.frames.take event.codeFrameCount

/-- The event is that of the whole record, or what is left of it when its stack is cut short. -/
structure IsPartOf (part whole : Event) : Prop where
  said : { part with frames := whole.frames, truncated := whole.truncated } = whole
  roots : part.rootFrames = [.thread whole.tid, .process whole.command]
  wholeRoots : whole.rootFrames = [.thread whole.tid, .process whole.command]
  code : part.codeFrames <+: whole.codeFrames
  uncut : part.truncated = false → part.codeFrames = whole.codeFrames

end Event

namespace Headline
variable (headline : Headline)

theorem codeFrames_event (lines : List FrameLine) :
    (headline.event lines).codeFrames = lines.filterMap Record.frameOfLine := by
  simp [Event.codeFrames, Event.codeFrameCount, event]

theorem rootFrames_event (lines : List FrameLine) :
    (headline.event lines).rootFrames =
      [.thread headline.header.tid, .process headline.header.command] := by
  simp [Event.rootFrames, event]

theorem isPartOf_self (lines : List FrameLine) :
    (headline.event lines).IsPartOf (headline.event lines) where
  said := rfl
  roots := headline.rootFrames_event lines
  wholeRoots := headline.rootFrames_event lines
  code := List.prefix_refl _
  uncut _ := rfl

theorem truncated_cut (lines : List FrameLine) :
    (headline.event (lines ++ [.cut])).truncated = true := by
  simp [event]

theorem isPartOf_cut (lines more : List FrameLine) :
    (headline.event (lines ++ [.cut])).IsPartOf (headline.event (lines ++ more)) where
  said := rfl
  roots := headline.rootFrames_event _
  wholeRoots := headline.rootFrames_event _
  code := by
    have none : [FrameLine.cut].filterMap Record.frameOfLine = [] := rfl
    rw [codeFrames_event, codeFrames_event, List.filterMap_append, List.filterMap_append, none,
      List.append_nil]
    exact List.prefix_append _ _
  uncut whole := by
    rw [truncated_cut] at whole
    cases whole

end Headline

/-- A line stands for a stack cut short exactly when the marker is its first byte that is not
a space or a tab. -/
theorem FrameLine.ofLine_eq_cut_iff (line : List UInt8) :
    FrameLine.ofLine line = .cut ↔ (line.dropWhile isSpaceByte).head? = some cutMarker := by
  have rest := TextCursor.rest_skipWhile isSpaceByte { rest := line }
  unfold FrameLine.ofLine FrameLine.read skipSpaces
  generalize skipWhile isSpaceByte ({ rest := line } : TextCursor) = c at rest
  obtain ⟨_, position, sentinel⟩ := c
  cases rest
  cases line.dropWhile isSpaceByte with
  | nil =>
    have ended : atEnd (⟨[], position, sentinel⟩ : TextCursor) = true := rfl
    simp only [ended, Bool.not_true, Bool.and_false, Bool.false_eq_true, if_false, if_true]
    split <;> simp
  | cons b rest =>
    have within : atEnd (⟨b :: rest, position, sentinel⟩ : TextCursor) = false := rfl
    have here : current (⟨b :: rest, position, sentinel⟩ : TextCursor) = b := rfl
    simp only [within, here, Bool.not_false, Bool.and_true, Bool.false_eq_true, if_false]
    by_cases marked : b = cutMarker
    · simp [marked]
    · have other : (b == cutMarker) = false := by simpa using marked
      simp only [other, Bool.false_eq_true, if_false, List.head?_cons, Option.some.injEq, marked,
        iff_false]
      split <;> simp

theorem FrameLine.ofLine_cutText : FrameLine.ofLine cutText = .cut :=
  (FrameLine.ofLine_eq_cut_iff cutText).mpr rfl

theorem FrameLine.not_contains_cut {lines : List (List UInt8)}
    (stack : ∀ line ∈ lines, IsStackLine line) :
    (lines.map FrameLine.ofLine).contains .cut = false := by
  simp only [List.contains_eq_mem, List.mem_map, decide_eq_false_iff_not, not_exists, not_and]
  intro line among
  rw [FrameLine.ofLine_eq_cut_iff]
  exact (stack line among).noMarker

namespace RecordLayout

theorem WellFormed.truncated_event {layout : RecordLayout} (wellFormed : layout.WellFormed) :
    layout.event.truncated = false :=
  FrameLine.not_contains_cut wellFormed.stack

theorem isPartOf_cut (header : List UInt8) (lines more : List (List UInt8)) :
    (event ⟨header, lines ++ [cutText]⟩).truncated = true ∧
      (event ⟨header, lines ++ [cutText]⟩).IsPartOf (event ⟨header, lines ++ more⟩) := by
  unfold event
  rw [List.map_append, List.map_append, List.map_singleton, FrameLine.ofLine_cutText]
  exact ⟨Headline.truncated_cut _ _, Headline.isPartOf_cut _ _ _⟩

end RecordLayout

end ProfileTrace
