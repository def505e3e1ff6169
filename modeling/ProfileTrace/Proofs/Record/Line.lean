import ProfileTrace.Proofs.Record.Scan
import ProfileTrace.Record

/-! Readers that stay within a line. What such a reader finds, and where it stops, depends on
the bytes of its line alone: neither what lies behind the line nor what follows its line feed
matters. Headers, switches and stack lines are all read this way. -/

namespace ProfileTrace

namespace TextCursor

/-- The same place in a longer text, with so many more bytes behind it and `tail` after it. -/
def placed (before : Nat) (tail : List UInt8) (c : TextCursor) : TextCursor :=
  { c with rest := c.rest ++ tail, position := before + c.position }

structure OnLine (c : TextCursor) : Prop where
  noFeed : 0x0A ∉ c.rest
  sentinel : c.sentinel = 0

inductive LineTail : List UInt8 → Prop where
  | none : LineTail []
  | feed (rest : List UInt8) : LineTail (0x0A :: rest)

variable {c : TextCursor} {before : Nat} {tail : List UInt8}

theorem OnLine.skip (line : c.OnLine) (count : Nat) : (c.skip count).OnLine :=
  ⟨fun feed => line.noFeed (List.mem_of_mem_drop feed), line.sentinel⟩

theorem placed_skip {count : Nat} (inside : count ≤ c.rest.length) :
    (c.placed before tail).skip count = (c.skip count).placed before tail := by
  simp only [placed, TextCursor.skip, List.drop_append_of_le_length inside, Nat.add_assoc]

theorem takeWhile_placed {test : UInt8 → Bool} (stops : test 0x0A = false)
    (ends : LineTail tail) (rest : List UInt8) :
    (rest ++ tail).takeWhile test = rest.takeWhile test := by
  induction rest with
  | nil => cases ends <;> simp [stops]
  | cons b rest ih => simp only [List.cons_append, List.takeWhile_cons, ih]

theorem head?_dropWhile_placed {test : UInt8 → Bool} (stops : test 0x0A = false)
    (ends : LineTail tail) {target : UInt8} (other : target ≠ 0x0A) (rest : List UInt8) :
    (((rest ++ tail).dropWhile test).head? == some target) =
      ((rest.dropWhile test).head? == some target) := by
  induction rest with
  | nil =>
    cases ends with
    | none => rfl
    | feed rest => simp [stops, other.symm]
  | cons b rest ih =>
    simp only [List.cons_append, List.dropWhile_cons]
    split
    · exact ih
    · rfl

/-- Ahead of a line's end the byte is that of the line; there it is a line feed, or the
sentinel as without the tail. -/
theorem test_current_placed {test : UInt8 → Bool} (line : c.OnLine) (ends : LineTail tail)
    (same : test 0x0A = test 0) :
    test (Cursor.current (c.placed before tail)) = test (Cursor.current c) := by
  obtain ⟨rest, position, sentinel⟩ := c
  have zero : sentinel = 0 := line.sentinel
  cases rest with
  | cons b rest => rfl
  | nil =>
    cases ends with
    | none => rfl
    | feed rest => exact same.trans (congrArg test zero.symm)

theorem exists_cons_of_test {test : UInt8 → Bool} (line : c.OnLine) (nul : test 0 = false)
    (passes : test (Cursor.current c) = true) :
    ∃ b rest, c = ⟨b :: rest, c.position, 0⟩ ∧ test b = true := by
  obtain ⟨rest, position, sentinel⟩ := c
  have zero : sentinel = 0 := line.sentinel
  subst zero
  cases rest with
  | nil => simp [nul] at passes
  | cons b rest => exact ⟨b, rest, rfl, passes⟩

theorem advance_placed (within : Cursor.atEnd c = false) :
    (Cursor.advance (c.placed before tail)).2 = (Cursor.advance c).2.placed before tail := by
  obtain ⟨rest, position, sentinel⟩ := c
  cases rest with
  | nil => simp at within
  | cons b rest => simp only [placed, List.cons_append, advance_cons, Nat.add_assoc]

theorem OnLine.advance (line : c.OnLine) : (Cursor.advance c).2.OnLine := by
  obtain ⟨rest, position, sentinel⟩ := c
  cases rest with
  | nil => exact line
  | cons b rest => exact ⟨fun feed => line.noFeed (List.mem_cons_of_mem b feed), line.sentinel⟩

theorem restore_mark {after : TextCursor} (same : after.sentinel = c.sentinel) :
    Cursor.restore (Cursor.mark c) after = c := by
  obtain ⟨rest, position, sentinel⟩ := c
  cases same
  rfl

end TextCursor

open Cursor Text
open TextCursor (LineTail placed_skip takeWhile_placed head?_dropWhile_placed test_current_placed
  exists_cons_of_test advance_placed skipWhile_eq readUntil_eq readUntilLastOnLine_eq
  beforeLast length_beforeLast_le)

/-- A reader that looks at nothing outside its line. -/
structure WithinLine {α : Type} (read : TextCursor → α × TextCursor) : Prop where
  placed : ∀ {c : TextCursor}, c.OnLine → ∀ (before : Nat) {tail : List UInt8}, LineTail tail →
    read (c.placed before tail) = ((read c).1, (read c).2.placed before tail)
  onLine : ∀ {c : TextCursor}, c.OnLine → (read c).2.OnLine

namespace WithinLine

variable {α β : Type}

theorem pure (value : α) : WithinLine fun c => (value, c) :=
  ⟨fun _ _ _ _ => rfl, fun line => line⟩

theorem bind {read : TextCursor → α × TextCursor} {more : α → TextCursor → β × TextCursor}
    (first : WithinLine read) (second : ∀ value, WithinLine (more value)) :
    WithinLine fun c => more (read c).1 (read c).2 where
  placed {c} line before tail ends := by
    simp only [first.placed line before ends]
    exact (second (read c).1).placed (first.onLine line) before ends
  onLine {c} line := (second (read c).1).onLine (first.onLine line)

theorem map {read : TextCursor → α × TextCursor} (first : WithinLine read) (f : α → β) :
    WithinLine fun c => (f (read c).1, (read c).2) :=
  first.bind fun value => pure (f value)

theorem branch (test : UInt8 → Bool) {yes no : TextCursor → α × TextCursor}
    (same : test 0x0A = test 0) (first : WithinLine yes) (second : WithinLine no) :
    WithinLine fun c => if test (current c) then yes c else no c where
  placed {c} line before tail ends := by
    simp only [test_current_placed line ends same]
    split
    · exact first.placed line before ends
    · exact second.placed line before ends
  onLine {c} line := by
    split
    · exact first.onLine line
    · exact second.onLine line

theorem advancing (test : UInt8 → Bool) {yes no : TextCursor → α × TextCursor}
    (feed : test 0x0A = false) (nul : test 0 = false) (first : WithinLine yes)
    (second : WithinLine no) :
    WithinLine fun c => if test (current c) then yes (advance c).2 else no c where
  placed {c} line before tail ends := by
    simp only [test_current_placed line ends (feed.trans nul.symm)]
    split
    next passes =>
      obtain ⟨b, rest, shape, -⟩ := exists_cons_of_test line nul passes
      have within : atEnd c = false := by rw [shape]; rfl
      rw [advance_placed within]
      exact first.placed line.advance before ends
    next => exact second.placed line before ends
  onLine {c} line := by
    split
    · exact first.onLine line.advance
    · exact second.onLine line

end WithinLine

/-! ### The scanning loops -/

theorem withinLine_skipWhile {test : UInt8 → Bool} (stops : test 0x0A = false) :
    WithinLine fun c => ((), skipWhile test c) where
  placed {c} line before tail ends := by
    have short : (c.rest.takeWhile test).length ≤ c.rest.length :=
      (List.takeWhile_prefix test).length_le
    have run : ((c.placed before tail).rest.takeWhile test) = c.rest.takeWhile test :=
      takeWhile_placed stops ends c.rest
    simp only [skipWhile_eq, run, placed_skip short]
  onLine {c} line := by
    simp only [skipWhile_eq]
    exact line.skip _

theorem withinLine_readUntil (stop : UInt8 → Bool) (stops : stop 0x0A = true) :
    WithinLine (readUntil stop) where
  placed {c} line before tail ends := by
    have short : (c.rest.takeWhile (!stop ·)).length ≤ c.rest.length :=
      (List.takeWhile_prefix _).length_le
    have run : ((c.placed before tail).rest.takeWhile (!stop ·)) =
        c.rest.takeWhile (!stop ·) :=
      takeWhile_placed (by simp [stops]) ends c.rest
    simp only [readUntil_eq, run, placed_skip short]
  onLine {c} line := by
    simp only [readUntil_eq]
    exact line.skip _

theorem withinLine_readUntilLastOnLine (target : UInt8) :
    WithinLine (readUntilLastOnLine target : TextCursor → List UInt8 × TextCursor) where
  placed {c} line before tail ends := by
    have run : (c.placed before tail).line = c.line := takeWhile_placed rfl ends c.rest
    have short : (beforeLast target c.line).length ≤ c.rest.length :=
      Nat.le_trans (length_beforeLast_le target c.line) (List.takeWhile_prefix _).length_le
    simp only [readUntilLastOnLine_eq, run, placed_skip short]
  onLine {c} line := by
    rw [readUntilLastOnLine_eq]
    exact line.skip _

end ProfileTrace
