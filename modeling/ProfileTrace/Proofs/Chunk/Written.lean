import ProfileTrace.Proofs.Chunk.Handout
import ProfileTrace.Proofs.Record.WellFormed

/-! Texts of records as they are written, with headers that a window holds. What is left of such a
text after a chunk is again one, and a cut is never inside a header. -/

namespace ProfileTrace
open Record (afterMark afterRecord layoutsOf linesOf_append_feed linesOf_feed linesOf_injective
  Unbroken)

/-- A text of records as they are written, of which only line feeds have been left before. Each
header fits into a window. -/
structure Written (capacity : Nat) (records : List RecordLayout) (text : List UInt8) : Prop where
  wellFormed : ∀ record ∈ records, record.WellFormed
  short : ∀ record ∈ records, record.header.length + 1 ≤ capacity - 258
  bytes : ∃ gap ≤ 2, text = List.replicate gap 0x0A ++ records.flatMap RecordLayout.bytes
  noMark : afterMark text = text

theorem linesOf_replicate_feed (gap : Nat) (text : List UInt8) :
    linesOf (List.replicate gap 0x0A ++ text) = List.replicate gap [] ++ linesOf text := by
  induction gap with
  | zero => rfl
  | succ gap ih =>
    rw [List.replicate_succ, List.cons_append, linesOf_feed, ih]
    rfl

theorem written_flatMap {capacity : Nat} {records : List RecordLayout} {text : List UInt8}
    (wellFormed : ∀ record ∈ records, record.WellFormed)
    (short : ∀ record ∈ records, record.header.length + 1 ≤ capacity - 258)
    (bytes : text = records.flatMap RecordLayout.bytes)
    (noMark : text.take 3 ≠ Record.byteOrderMark) : Written capacity records text where
  wellFormed
  short
  bytes := ⟨0, Nat.zero_le 2, bytes⟩
  noMark := if_neg noMark

namespace Written
variable {capacity : Nat} {records later : List RecordLayout} {text left : List UInt8}

theorem lines (written : Written capacity records text) :
    ∃ gap ≤ 2, linesOf text = List.replicate gap [] ++ recordLines records := by
  obtain ⟨gap, small, rfl⟩ := written.bytes
  refine ⟨gap, small, ?_⟩
  rw [linesOf_replicate_feed, linesOf_flatMap_bytes written.wellFormed]

theorem layoutsOf_eq (written : Written capacity records text) : layoutsOf text = records := by
  obtain ⟨gap, -, lines⟩ := written.lines
  have blank : layouts (List.replicate gap []) = [] := by
    apply Record.layouts_of_blank
    intro line among
    rw [List.eq_of_mem_replicate among]
    rfl
  rw [layoutsOf, written.noMark, lines, layouts_append_of_nil blank,
    layouts_recordLines written.wellFormed]

theorem of_lines (written : Written capacity records text) (among : later <:+ records) {gap : Nat}
    (small : gap ≤ 2) (lines : linesOf left = List.replicate gap [] ++ recordLines later)
    (begins : left.head?.all Cut.isLineBreak = true) : Written capacity later left where
  wellFormed record inside := written.wellFormed record (among.subset inside)
  short record inside := written.short record (among.subset inside)
  bytes := by
    refine ⟨gap, small, linesOf_injective ?_⟩
    have wellFormed : ∀ record ∈ later, record.WellFormed := fun record inside =>
      written.wellFormed record (among.subset inside)
    rw [lines, linesOf_replicate_feed, linesOf_flatMap_bytes wellFormed]
  noMark := Record.afterMark_of_lineBreak begins

theorem parted (written : Written capacity records text) {before : List UInt8}
    (whole : text = before ++ 0x0A :: left) : Parted 2 records (linesOf before) (linesOf left) := by
  obtain ⟨gap, small, lines⟩ := written.lines
  rw [whole, linesOf_append_feed] at lines
  cases ProfileTrace.parted written.wellFormed gap (List.splitOn_ne_nil 0x0A left) lines with
  | ahead left more blank rest => exact .ahead left (Nat.le_trans more small) blank rest
  | between later among last rest => exact .between later among last rest
  | inside later stack among header going rest => exact .inside later stack among header going rest

theorem of_clean (written : Written capacity records text) {kept : List UInt8}
    (whole : text = kept ++ left) (ended : left = [] ∨ kept.getLast? = some 0x0A)
    (begins : left.head?.all Cut.isLineBreak = true) : ∃ later, Written capacity later left := by
  rcases ended with rfl | ended
  · exact ⟨[], written.of_lines (List.nil_suffix) (Nat.zero_le 2) Record.linesOf_nil rfl⟩
  · obtain ⟨before, rfl⟩ := List.getLast?_eq_some_iff.mp ended
    rw [List.append_assoc, List.singleton_append] at whole
    cases written.parted whole with
    | ahead gap small blank rest =>
      exact ⟨records, written.of_lines (List.suffix_refl records) small rest begins⟩
    | between later among last rest =>
      exact ⟨later, written.of_lines among (Nat.zero_le 2) rest begins⟩
    | inside later stack among header going rest =>
      have ends := Record.closes_head?_linesOf begins
      rw [rest] at ends
      cases stack with
      | nil => exact ⟨later, written.of_lines among (Nat.le_succ 1) rest begins⟩
      | cons line stack =>
        have open_ := (going line List.mem_cons_self).going
        simp [open_] at ends

theorem not_empty_of_feed {before : List UInt8}
    (header : 0x0A ∈ (before ++ [0x0A]).dropWhile Cut.isLineBreak) :
    ¬∀ line ∈ linesOf before, line = [] := by
  intro empty
  have only : ∀ b ∈ before ++ [0x0A], Cut.isLineBreak b = true := by
    intro b inside
    rcases List.mem_append.mp inside with here | last
    · have found : b ∈ breaks (linesOf before) := by
        rw [Record.breaks_linesOf]
        exact List.mem_cons_of_mem _ here
      obtain ⟨line, among, place⟩ := List.mem_flatMap.mp found
      rw [empty line among, List.mem_singleton] at place
      rw [place]
      rfl
    · rw [List.mem_singleton.mp last]
      rfl
  rw [List.dropWhile_eq_nil_iff.mpr only] at header
  exact List.not_mem_nil header

theorem getLast?_ne_empty {before : List UInt8}
    (header : 0x0A ∈ (before ++ [0x0A]).dropWhile Cut.isLineBreak)
    (unbroken : Unbroken (before ++ [0x0A])) : (linesOf before).getLast? ≠ some [] := by
  intro last
  obtain ⟨first, shape⟩ := List.getLast?_eq_some_iff.mp last
  have whole := Record.breaks_linesOf before
  rw [shape, breaks_append] at whole
  cases first with
  | nil =>
    apply not_empty_of_feed header
    rw [shape]
    simp
  | cons line lines =>
    have text : before = (line ++ breaks lines) ++ [0x0A] := by simpa using whole.symm
    by_cases none : line ++ breaks lines = []
    · rw [text, none] at header
      exact absurd header (by decide)
    · have ends := unbroken _ (List.length_pos_iff.mpr none)
      rw [isRecordEnd, text, List.append_assoc, List.drop_left] at ends
      exact absurd ends (by decide)

/-- A cut after a line, which leaves no record behind it uncut: it is inside a record, and the
next one begins after the empty line that is skipped to. -/
theorem of_afterLine (written : Written capacity records text) {before rest : List UInt8}
    (whole : text = before ++ 0x0A :: rest)
    (header : 0x0A ∈ (before ++ [0x0A]).dropWhile Cut.isLineBreak)
    (unbroken : Unbroken (before ++ [0x0A]))
    (going : rest.head?.any (fun b => !Cut.isLineBreak b) = true) :
    layoutsOf before ≠ [] ∧ (linesOf rest).head?.all closes = false ∧
      ∃ later, Written capacity later (afterRecord rest) := by
  cases written.parted whole with
  | ahead gap small blank rest => exact absurd blank (not_empty_of_feed header)
  | between later among last rest => exact absurd last (getLast?_ne_empty header unbroken)
  | inside later stack among text stackLines lines =>
    have noMark : afterMark before = before := by
      have apart := written.noMark
      rw [whole, Record.afterMark_append_feed] at apart
      exact List.append_cancel_right apart
    cases stack with
    | nil =>
      -- only the empty line of the record is left, which begins with a line break
      have empty := congrArg breaks lines
      rw [Record.breaks_linesOf] at empty
      have begins : rest = breaks (recordLines later) := by simpa using empty
      rw [begins] at going
      cases shape : recordLines later with
      | nil => simp [shape] at going
      | cons line others => simp [shape, Cut.isLineBreak] at going
    | cons line stack =>
      have first := stackLines line List.mem_cons_self
      refine ⟨?_, ?_, later, ?_⟩
      · intro none
        rw [layoutsOf, noMark] at none
        obtain ⟨line, inside, text⟩ := text
        rw [Record.isBlankLine_of_layouts_nil none line inside] at text
        cases text
      · simp [lines, first.going]
      · have skipped : afterStack (stack ++ [] :: recordLines later) = [] :: recordLines later := by
          rw [afterStack, List.dropWhile_append_of_pos]
          · simp [closes]
          · intro line among
            simp [(stackLines line (List.mem_cons_of_mem _ among)).going]
        apply written.of_lines among (Nat.le_refl 2)
        · rw [afterRecord, lines, List.cons_append, List.tail_cons, skipped]
          apply linesOf_breaks
          intro other among
          have inside : other ∈ linesOf rest := by
            rw [lines]
            exact List.mem_append_right _ among
          exact noFeed_of_mem_linesOf inside
        · rw [afterRecord, lines, List.cons_append, List.tail_cons, skipped]
          rfl

theorem not_insideLine (written : Written capacity records text) (least : leastCapacity ≤ capacity)
    {kept rest : List UInt8} (whole : text = kept ++ rest)
    (long : capacity - historyLength ≤ kept.length) : 0x0A ∈ kept.dropWhile Cut.isLineBreak := by
  obtain ⟨gap, small, shape⟩ := written.bytes
  simp only [leastCapacity, historyLength] at least long
  cases records with
  | nil =>
    have size := congrArg List.length (whole.symm.trans shape)
    simp only [List.length_append, List.length_replicate, List.flatMap_nil, List.length_nil] at size
    omega
  | cons record records =>
    have fits := written.short record List.mem_cons_self
    obtain ⟨b, begins, other⟩ := (written.wellFormed record List.mem_cons_self).begins
    obtain ⟨header, first⟩ := List.head?_eq_some_iff.mp begins
    have lead : List.replicate gap 0x0A ++ (record.header ++ [0x0A]) <+: text := by
      rw [shape, List.flatMap_cons, RecordLayout.bytes]
      simp
    -- two bytes of the gap, the header line and 256 bytes of history fit into the window
    have inside := List.prefix_of_prefix_length_le lead ⟨rest, whole.symm⟩ (by
      simp only [List.length_append, List.length_replicate, List.length_singleton]
      omega)
    obtain ⟨more, same⟩ := inside
    have text : Cut.isLineBreak b = false := by
      by_contra lineBreak
      simp only [Cut.isLineBreak, Bool.or_eq_true, beq_iff_eq, Bool.not_eq_false] at lineBreak
      rcases lineBreak with rfl | rfl <;> exact absurd other (by decide)
    rw [← same, List.append_assoc, List.dropWhile_append_of_pos, first, List.cons_append,
      List.cons_append, List.dropWhile_cons_of_neg (by simp [text])]
    · simp
    · intro feed among
      rw [List.eq_of_mem_replicate among]
      rfl

end Written

end ProfileTrace
