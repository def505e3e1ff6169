import ProfileTrace.Chunk
import ProfileTrace.Proofs.Record.Headings

/-! A text cut in two. Cut where a record ends, its parts hold its records. Cut inside a
record, the first part with a line for what is missing holds the records before the cut, and
that one with a shorter stack; the rest of it is what skipping to its end leaves out. -/

namespace ProfileTrace.Record
open Cursor Text

theorem linesOf_append_feed (before after : List UInt8) :
    linesOf (before ++ 0x0A :: after) = linesOf before ++ linesOf after :=
  List.splitOn_append_cons_self before after

theorem linesOf_feed (text : List UInt8) : linesOf (0x0A :: text) = [] :: linesOf text :=
  linesOf_append_feed [] text

theorem linesOf_nil : linesOf [] = [[]] := List.splitOn_nil _

theorem breaks_linesOf (text : List UInt8) : breaks (linesOf text) = 0x0A :: text := by
  obtain ⟨first, others, shape, whole⟩ := exists_linesOf text
  rw [shape, breaks_cons, ← whole]

theorem linesOf_injective : Function.Injective linesOf := by
  intro first second same
  have joined := congrArg breaks same
  rw [breaks_linesOf, breaks_linesOf] at joined
  exact List.tail_eq_of_cons_eq joined

theorem afterMark_append_feed (before after : List UInt8) :
    afterMark (before ++ 0x0A :: after) = afterMark before ++ 0x0A :: after := by
  match before with
  | [] => simp [afterMark, byteOrderMark]
  | [_] => simp [afterMark, byteOrderMark]
  | [_, _] => simp [afterMark, byteOrderMark]
  | a :: b :: c :: rest =>
    simp only [afterMark, List.cons_append, List.take_succ_cons, List.take_zero,
      List.drop_succ_cons, List.drop_zero]
    split <;> rfl

theorem exists_afterMark (text : List UInt8) : ∃ mark, text = mark ++ afterMark text := by
  unfold afterMark
  split
  · exact ⟨text.take 3, (List.take_append_drop 3 text).symm⟩
  · exact ⟨[], rfl⟩

theorem afterMark_append {before : List UInt8} (long : 3 ≤ before.length) (after : List UInt8) :
    afterMark (before ++ after) = afterMark before ++ after := by
  simp only [afterMark, List.take_append_of_le_length long, List.drop_append_of_le_length long]
  split <;> rfl

theorem layoutsOf_append_feed (before after : List UInt8) :
    layoutsOf (before ++ 0x0A :: after) =
      layouts (linesOf (afterMark before) ++ linesOf after) := by
  rw [layoutsOf, afterMark_append_feed, linesOf_append_feed]

theorem layoutsOf_append_last_feed (text : List UInt8) :
    layoutsOf (text ++ [0x0A]) = layoutsOf text := by
  have last : layouts [[]] = [] := by rw [layouts_blank rfl, layouts_nil]
  rw [layoutsOf_append_feed, linesOf_nil, layouts_append _ rfl, last,
    List.append_nil]
  rfl

/-- A text that begins with a line break is empty on its first line, or begins with a
carriage return there. -/
theorem closes_head?_linesOf {text : List UInt8} (begins : text.head?.all Cut.isLineBreak = true) :
    (linesOf text).head?.all closes = true := by
  obtain ⟨first, others, shape, rfl⟩ := exists_linesOf text
  rw [shape]
  cases first with
  | nil => rfl
  | cons b rest =>
    have noFeed : b ≠ 0x0A := by
      intro same
      exact noFeed_of_mem_linesOf (shape ▸ List.mem_cons_self) (by simp [same])
    have carriage : b = 0x0D := by simpa [Cut.isLineBreak, noFeed] using begins
    simp [closes, carriage]

theorem closes_head?_linesOf_nul {text : List UInt8} (begins : text.head? = some 0) :
    (linesOf text).head?.all closes = true := by
  obtain ⟨first, others, shape, rfl⟩ := exists_linesOf text
  rw [shape]
  cases first with
  | nil => rfl
  | cons b rest =>
    have nul : b = 0 := by simpa using begins
    simp [closes, nul]

theorem not_closes_head?_linesOf {text : List UInt8} {b : UInt8} (begins : text.head? = some b)
    (other : Cut.isLineBreak b = false) (noNul : b ≠ 0) :
    (linesOf text).head?.all closes = false := by
  obtain ⟨first, others, shape, rfl⟩ := exists_linesOf text
  simp only [Cut.isLineBreak, Bool.or_eq_false_iff, beq_eq_false_iff_ne] at other
  rw [shape]
  cases first with
  | nil =>
    cases others with
    | nil => simp at begins
    | cons line others => exact absurd (by simpa using begins.symm) other.1
  | cons c rest =>
    have same : c = b := by simpa using begins
    simp [closes, same, other.2, noNul]

theorem afterMark_of_lineBreak {text : List UInt8}
    (begins : text.head?.all Cut.isLineBreak = true) : afterMark text = text := by
  unfold afterMark
  split
  next mark =>
    cases text with
    | nil => rfl
    | cons b rest =>
      have first : b = 0xEF := by
        simp only [List.take_succ_cons, byteOrderMark, List.cons.injEq] at mark
        exact mark.1
      rw [first] at begins
      simp [Cut.isLineBreak] at begins
  next => rfl

theorem layoutsOf_append {before after : List UInt8} (ended : before.getLast? = some 0x0A)
    (begins : after.head?.all Cut.isLineBreak = true) :
    layoutsOf (before ++ after) = layoutsOf before ++ layoutsOf after := by
  obtain ⟨lines, rfl⟩ := List.getLast?_eq_some_iff.mp ended
  rw [layoutsOf_append_last_feed, List.append_assoc, List.singleton_append, layoutsOf_append_feed,
    layouts_append _ (closes_head?_linesOf begins), layoutsOf, layoutsOf,
    afterMark_of_lineBreak begins]

/-! ### Cut inside a record -/

def cutText : List UInt8 := [0x01, 0x74, 0x72, 0x75, 0x6E, 0x63, 0x61, 0x74, 0x65, 0x64]

theorem cutLine_eq : Chunk.cutLine = cutText ++ [0x0A] := by decide +kernel

theorem linesOf_cutLine : linesOf Chunk.cutLine = [cutText, []] := by
  rw [cutLine_eq, linesOf_append_feed, linesOf_nil]
  rfl

theorem markCut_of_feed (before : List UInt8) :
    Chunk.markCut (before ++ [0x0A]) = before ++ 0x0A :: Chunk.cutLine := by
  simp [Chunk.markCut]

theorem markCut_of_noFeed {before : List UInt8} (unended : before.getLast? ≠ some 0x0A) :
    Chunk.markCut before = before ++ 0x0A :: Chunk.cutLine := by
  simp [Chunk.markCut, unended]

/-- What is left of a text when the rest of a record is skipped. -/
def afterRecord (text : List UInt8) : List UInt8 := breaks (afterStack (linesOf text).tail)

theorem rest_skipToRecordEnd (text : List UInt8) (position : Nat) :
    (skipToRecordEnd (⟨text, position, 0⟩ : TextCursor)).rest = afterRecord text := by
  obtain ⟨first, others, shape, whole⟩ := exists_linesOf text
  have clean : ∀ line ∈ first :: others, 0x0A ∉ line := by
    intro line among
    exact noFeed_of_mem_linesOf (shape ▸ among)
  rw [afterRecord, shape]
  exact (skipToRecordEnd_breaks rfl (clean first (by simp))
    (fun line among => clean line (List.mem_cons_of_mem _ among)) whole).1

theorem layoutsOf_afterRecord (text : List UInt8) :
    layoutsOf (afterRecord text) = layouts (afterStack (linesOf text).tail) := by
  have clean : ∀ line ∈ afterStack (linesOf text).tail, 0x0A ∉ line := by
    intro line among
    exact noFeed_of_mem_linesOf (List.mem_of_mem_tail (mem_of_mem_afterStack among))
  have begins : (afterRecord text).head?.all Cut.isLineBreak = true := by
    unfold afterRecord
    cases afterStack (linesOf text).tail <;> rfl
  rw [layoutsOf, afterMark_of_lineBreak begins, afterRecord, linesOf_breaks clean,
    layouts_blank rfl]

/-- No record ends in the text, unless at its first byte. -/
def Unbroken (text : List UInt8) : Prop := ∀ index, 1 ≤ index → isRecordEnd text index = false

theorem exists_before_blank {text line : List UInt8}
    (among : line ∈ (linesOf text).dropWhile isBlankLine) (blank : isBlankLine line = true) :
    ∃ ahead below, ahead ≠ [] ∧ text = ahead ++ 0x0A :: (line ++ breaks below) := by
  obtain ⟨header, others, shape⟩ := List.exists_cons_of_ne_nil (List.ne_nil_of_mem among)
  have noBlank : isBlankLine header = false := by
    have head := List.head?_dropWhile_not isBlankLine (linesOf text)
    rw [shape] at head
    simpa using head
  have later : line ∈ others := by
    rw [shape] at among
    apply List.mem_of_ne_of_mem _ among
    intro same
    rw [← same, blank] at noBlank
    cases noBlank
  obtain ⟨between, below, rfl⟩ := List.append_of_mem later
  have parts := List.takeWhile_append_dropWhile (p := isBlankLine) (l := linesOf text)
  rw [shape, ← List.cons_append, ← List.append_assoc] at parts
  have inside : header ∈ (linesOf text).takeWhile isBlankLine ++ header :: between := by simp
  generalize (linesOf text).takeWhile isBlankLine ++ header :: between = front at parts inside
  obtain ⟨first, rest, rfl⟩ := List.exists_cons_of_ne_nil (List.ne_nil_of_mem inside)
  have whole := breaks_linesOf text
  rw [← parts, breaks_append, breaks_cons, breaks_cons, List.cons_append, List.cons.injEq] at whole
  refine ⟨first ++ breaks rest, below, ?_, whole.2.symm⟩
  intro none
  obtain ⟨rfl, ends⟩ := List.append_eq_nil_iff.mp none
  have alone : rest = [] := by
    cases rest with
    | nil => rfl
    | cons line rest => simp at ends
  rw [alone, List.mem_singleton] at inside
  rw [inside] at noBlank
  cases noBlank

theorem startsAtRecordEnd_of_blank {line : List UInt8} (blank : isBlankLine line = true)
    (ends : closes line = true) (lines : List (List UInt8)) :
    startsAtRecordEnd (0x0A :: (line ++ breaks lines ++ [0x0A])) = true := by
  cases line with
  | nil => cases lines <;> simp [startsAtRecordEnd]
  | cons b line =>
    have noNul : b ≠ 0 := by
      rintro rfl
      have text : isWhitespaceByte 0 = false := by decide
      simp [isBlankLine, text] at blank
    have carriage : b = 0x0D := by simpa [closes, noNul] using ends
    simp [startsAtRecordEnd, carriage]

/-- In a text where no record ends, the line that closes one is the header of the next. -/
theorem not_blank_of_unbroken {before : List UInt8} (unbroken : Unbroken (before ++ [0x0A])) :
    ∀ line ∈ (linesOf (afterMark before)).dropWhile isBlankLine,
      closes line = true → isBlankLine line = false := by
  intro line among ends
  by_contra blank
  have blank : isBlankLine line = true := by simpa using blank
  obtain ⟨ahead, below, some, text⟩ := exists_before_blank among blank
  obtain ⟨mark, marked⟩ := exists_afterMark before
  have whole : before ++ [0x0A] = (mark ++ ahead) ++ 0x0A :: (line ++ breaks below ++ [0x0A]) :=
    calc
      before ++ [0x0A] = mark ++ afterMark before ++ [0x0A] := congrArg (· ++ [0x0A]) marked
      _ = (mark ++ ahead) ++ 0x0A :: (line ++ breaks below ++ [0x0A]) := by
        rw [text]
        simp
  have here := unbroken (mark ++ ahead).length (List.length_pos_iff.mpr (by simp [some]))
  rw [isRecordEnd, whole, List.drop_left, startsAtRecordEnd_of_blank blank ends] at here
  cases here

/-- What stands before the marked line of a record that was cut: the part that was kept, without
the line feed at its end, holds the same records. -/
theorem exists_markCut {kept : List UInt8} (unbroken : Unbroken kept) :
    ∃ before, Chunk.markCut kept = before ++ 0x0A :: Chunk.cutLine ∧
      layoutsOf before = layoutsOf kept ∧ Unbroken (before ++ [0x0A]) := by
  by_cases ended : kept.getLast? = some 0x0A
  · obtain ⟨before, rfl⟩ := List.getLast?_eq_some_iff.mp ended
    exact ⟨before, markCut_of_feed before, (layoutsOf_append_last_feed before).symm, unbroken⟩
  · refine ⟨kept, markCut_of_noFeed ended, rfl, ?_⟩
    intro index positive
    have here := unbroken index positive
    by_cases inside : index < kept.length
    · rw [isRecordEnd, List.drop_append_of_le_length (Nat.le_of_lt inside)]
      rw [isRecordEnd] at here
      have last : (kept.drop index).getLast? = kept.getLast? := by
        rw [List.getLast?_drop, if_neg (by omega)]
      rcases shape : kept.drop index with _ | ⟨b, _ | ⟨second, rest⟩⟩
      · simp [startsAtRecordEnd]
      · have noFeed : b ≠ 0x0A := by
          intro same
          rw [shape, same] at last
          exact ended last.symm
        simp [startsAtRecordEnd, noFeed]
      · rw [shape] at here
        exact here
    · have short : ((kept ++ [0x0A]).drop index).length ≤ 1 := by
        rw [List.length_drop, List.length_append, List.length_singleton]
        omega
      rcases shape : (kept ++ [0x0A]).drop index with _ | ⟨b, _ | ⟨second, rest⟩⟩
      · simp [isRecordEnd, shape, startsAtRecordEnd]
      · simp [isRecordEnd, shape, startsAtRecordEnd]
      · simp [shape] at short

theorem endsInside_of_unbroken {before : List UInt8} (unbroken : Unbroken (before ++ [0x0A]))
    (some : layoutsOf before ≠ []) : EndsInside (linesOf (afterMark before)) :=
  endsInside some (not_blank_of_unbroken unbroken)

theorem cutLine_mem_headings_iff {kept : List UInt8} (unbroken : Unbroken kept) :
    Chunk.cutLine ∈ headings (Chunk.markCut kept) ↔ layoutsOf kept = [] := by
  obtain ⟨before, marked, same, unbroken⟩ := exists_markCut unbroken
  rw [marked, headings_eq, afterMark_append_feed, linesOf_append_feed, linesOf_cutLine, ← same]
  by_cases none : layoutsOf before = []
  · have text : isBlankLine cutText = false := by decide
    rw [headingsOf_append_of_nil none, headingsOf_header text]
    simp only [none, iff_true]
    exact List.mem_cons.mpr (Or.inl (by decide +kernel))
  · have going : closes cutText = false := by decide
    have longer := length_lt_of_mem_headingsOf none (not_blank_of_unbroken unbroken) going
    simp only [none, iff_false]
    intro among
    exact absurd (longer _ among) (by decide +kernel)

theorem layoutsOf_cut_afterLine {before after : List UInt8}
    (inside : EndsInside (linesOf (afterMark before)))
    (going : (linesOf after).head?.all closes = false) :
    ∃ (others : List RecordLayout) (last : RecordLayout) (more : List (List UInt8)),
      layoutsOf (Chunk.markCut (before ++ [0x0A])) =
        others ++ [{ last with lines := last.lines ++ [cutText] }] ∧
      layoutsOf (before ++ 0x0A :: after) =
        others ++ { last with lines := last.lines ++ more } :: layoutsOf (afterRecord after) := by
  obtain ⟨others, last, -, extended⟩ := inside
  refine ⟨others, last, stackOf (linesOf after), ?_, ?_⟩
  · have closing : layouts [[]] = [] := by rw [layouts_blank rfl, layouts_nil]
    have marked := extended [cutText] (by decide)
    rw [markCut_of_feed, layoutsOf_append_feed, linesOf_cutLine,
      show [cutText, []] = [cutText] ++ [[]] from rfl, ← List.append_assoc, layouts_append _ rfl,
      marked, closing, List.append_nil]
  · obtain ⟨first, rest, shape, -⟩ := exists_linesOf after
    have going : closes first = false := by simpa [shape] using going
    have stack := extended (stackOf (linesOf after)) fun line among => not_closes_of_mem_stackOf among
    have tail : afterStack (linesOf after).tail = afterStack (linesOf after) := by
      rw [shape, List.tail_cons, afterStack_going going]
    rw [layoutsOf_append_feed, layoutsOf_afterRecord, tail, List.append_cons, ← stack,
      ← layouts_append _ (closes_head?_afterStack _), List.append_assoc, stackOf_append_afterStack]

/-- A text that is cut after a line of a record, before a line that begins with the sentinel:
that line is a header, which skipping to the end of the record leaves out. -/
theorem layoutsOf_cut_beforeNul (before : List UInt8) {after : List UInt8}
    (nul : after.head? = some 0) :
    ∃ lost, layoutsOf (before ++ 0x0A :: after) =
      layoutsOf before ++ lost :: layoutsOf (afterRecord after) := by
  obtain ⟨first, others, shape, whole⟩ := exists_linesOf after
  obtain ⟨rest, rfl⟩ : ∃ rest, first = 0 :: rest := by
    cases first with
    | nil => cases others <;> simp [whole] at nul
    | cons b rest =>
      have same : b = 0 := by simpa [whole] using nul
      exact ⟨rest, by rw [same]⟩
  have text : isBlankLine (0 :: rest) = false := by
    have noBlank : isWhitespaceByte 0 = false := by decide
    simp [isBlankLine, noBlank]
  refine ⟨⟨(0 :: rest).dropWhile isWhitespaceByte, stackOf others⟩, ?_⟩
  rw [layoutsOf_append_feed, layoutsOf_afterRecord, shape, layouts_append _ rfl,
    layouts_header text]
  rfl

/-! ### Cut inside a line -/

theorem layouts_of_blank {lines : List (List UInt8)} (blank : ∀ line ∈ lines, isBlankLine line = true) :
    layouts lines = [] := by
  induction lines with
  | nil => exact layouts_nil
  | cons line lines ih =>
    rw [layouts_blank (blank line (by simp))]
    exact ih fun line among => blank line (by simp [among])

theorem isBlankLine_of_layouts_nil {lines : List (List UInt8)} (none : layouts lines = []) :
    ∀ line ∈ lines, isBlankLine line = true := by
  induction lines with
  | nil => simp
  | cons line lines ih =>
    by_cases blank : isBlankLine line = true
    · rw [layouts_blank blank] at none
      exact List.forall_mem_cons.mpr ⟨blank, ih none⟩
    · rw [layouts_header (by simpa using blank)] at none
      cases none

theorem mem_of_mem_linesOf {text line : List UInt8} {b : UInt8} (among : line ∈ linesOf text)
    (inside : b ∈ line) : b = 0x0A ∨ b ∈ text := by
  have found : b ∈ breaks (linesOf text) :=
    List.mem_flatMap.mpr ⟨line, among, List.mem_cons_of_mem _ inside⟩
  rw [breaks_linesOf] at found
  exact List.mem_cons.mp found

theorem isBlankLine_of_lineBreaks {text : List UInt8} (only : ∀ b ∈ text, Cut.isLineBreak b = true) :
    ∀ line ∈ linesOf text, isBlankLine line = true := by
  intro line among
  simp only [isBlankLine, List.all_eq_true]
  intro b inside
  rcases mem_of_mem_linesOf among inside with rfl | there
  · decide
  · have lineBreak := only b there
    simp only [Cut.isLineBreak, Bool.or_eq_true, beq_iff_eq] at lineBreak
    rcases lineBreak with rfl | rfl <;> decide

theorem layoutsOf_of_lineBreaks {text : List UInt8} (only : ∀ b ∈ text, Cut.isLineBreak b = true) :
    layoutsOf text = [] := by
  have begins : text.head?.all Cut.isLineBreak = true := by
    cases text with
    | nil => rfl
    | cons b rest => simpa using only b List.mem_cons_self
  rw [layoutsOf, afterMark_of_lineBreak begins]
  exact layouts_of_blank (isBlankLine_of_lineBreaks only)

theorem layoutsOf_nil : layoutsOf [] = [] := layoutsOf_of_lineBreaks (by simp)

theorem layoutsOf_of_last_feed {kept : List UInt8} (noFeed : 0x0A ∉ kept.dropWhile Cut.isLineBreak)
    (ended : kept.getLast? = some 0x0A) : layoutsOf kept = [] := by
  apply layoutsOf_of_lineBreaks
  apply List.dropWhile_eq_nil_iff.mp
  by_contra some
  apply noFeed
  have parts := List.takeWhile_append_dropWhile (p := Cut.isLineBreak) (l := kept)
  rw [← parts, List.getLast?_append, List.getLast?_eq_some_getLast some] at ended
  have last : (kept.dropWhile Cut.isLineBreak).getLast some = 0x0A := by simpa using ended
  exact last ▸ List.getLast_mem some

theorem exists_lastLine {before : List UInt8} (only : ∀ b ∈ before, Cut.isLineBreak b = true)
    {text : List UInt8} (noFeed : 0x0A ∉ text) :
    ∃ line, 0x0A ∉ line ∧ ∀ after, layouts (linesOf (before ++ text ++ after)) =
      layouts (linesOf (line ++ after)) := by
  induction size : before.length using Nat.strong_induction_on generalizing before with
  | _ size ih =>
    by_cases feed : 0x0A ∈ before
    · obtain ⟨first, rest, rfl⟩ := List.append_of_mem feed
      obtain ⟨line, noFeed, same⟩ := ih rest.length (by simp [← size]; omega)
        (fun b inside => only b (by simp [inside])) rfl
      refine ⟨line, noFeed, ?_⟩
      intro after
      have lead : ∀ b ∈ first, Cut.isLineBreak b = true := fun b inside =>
        only b (List.mem_append_left _ inside)
      have blank := layouts_of_blank (isBlankLine_of_lineBreaks lead)
      rw [← same, List.append_assoc, List.append_assoc, List.cons_append, linesOf_append_feed,
        layouts_append_of_nil blank, List.append_assoc]
    · exact ⟨before ++ text, by simp [feed, noFeed], fun after => rfl⟩

theorem exists_line_of_noFeed {kept : List UInt8} (long : 3 ≤ kept.length)
    (noFeed : 0x0A ∉ kept.dropWhile Cut.isLineBreak) :
    ∃ line, 0x0A ∉ line ∧
      ∀ after, layoutsOf (kept ++ after) = layouts (linesOf (line ++ after)) := by
  have parts := List.takeWhile_append_dropWhile (p := Cut.isLineBreak) (l := kept)
  by_cases none : kept.takeWhile Cut.isLineBreak = []
  · rw [none, List.nil_append] at parts
    rw [parts] at noFeed
    obtain ⟨mark, marked⟩ := exists_afterMark kept
    refine ⟨afterMark kept, ?_, ?_⟩
    · intro feed
      rw [marked] at noFeed
      exact noFeed (List.mem_append_right mark feed)
    · intro after
      rw [layoutsOf, afterMark_append long]
  · have only : ∀ b ∈ kept.takeWhile Cut.isLineBreak, Cut.isLineBreak b = true := fun b among =>
      List.mem_takeWhile_imp among
    have begins : kept.head?.all Cut.isLineBreak = true := by
      obtain ⟨b, rest, shape⟩ := List.exists_cons_of_ne_nil none
      have first := only b (by simp [shape])
      rw [← parts, shape]
      simpa using first
    obtain ⟨line, clean, same⟩ := exists_lastLine only noFeed
    refine ⟨line, clean, ?_⟩
    intro after
    rw [← same, parts, layoutsOf, afterMark_append long, afterMark_of_lineBreak begins]

theorem length_layoutsOf_cut_insideLine {kept : List UInt8} (long : 3 ≤ kept.length)
    (noFeed : 0x0A ∉ kept.dropWhile Cut.isLineBreak) (some : layoutsOf kept ≠ [])
    (after : List UInt8) :
    (layoutsOf (kept ++ after)).length =
      (layoutsOf kept).length + (layoutsOf (afterRecord after)).length := by
  obtain ⟨line, clean, same⟩ := exists_line_of_noFeed long noFeed
  obtain ⟨first, rest, shape, whole⟩ := exists_linesOf after
  have alone : layoutsOf kept = layouts [line] := by
    have whole := same []
    rwa [List.append_nil, List.append_nil, linesOf, List.splitOn_eq_singleton clean] at whole
  have text : isBlankLine line = false := by
    by_contra blank
    rw [alone, layouts_blank (by simpa using blank), layouts_nil] at some
    exact some rfl
  have longer : isBlankLine (line ++ first) = false := by
    simp only [isBlankLine, List.all_append, Bool.and_eq_false_iff] at text ⊢
    exact Or.inl text
  have joined : linesOf (line ++ after) = (line ++ first) :: rest := by
    have each : ∀ other ∈ first :: rest, 0x0A ∉ other := by
      intro other among
      exact noFeed_of_mem_linesOf (shape ▸ among)
    rw [whole, ← List.append_assoc]
    apply linesOf_append_breaks
    · simp [clean, each first List.mem_cons_self]
    · exact fun other among => each other (List.mem_cons_of_mem _ among)
  have closed : afterStack [] = [] := rfl
  rw [same, joined, layouts_header longer, alone, layouts_header text, layoutsOf_afterRecord, shape,
    closed, layouts_nil, List.length_cons, List.length_singleton, List.tail_cons]
  omega

end ProfileTrace.Record
