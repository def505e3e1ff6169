import ProfileTrace.Proofs.Record.Isolation

/-! Where headers are read. A line that is added to a text is read as a header exactly when
no record is open before it. -/

namespace ProfileTrace
open Cursor Text
open TextCursor (rest_skipWhile)

namespace Record

def headingsFrom (c : TextCursor) : List (List UInt8) :=
  match _found : read? (fun _ => true) c with
  | (none, _) => []
  | (some _, after) => (skipWhitespace c).rest :: headingsFrom after
termination_by limit c - position c
decreasing_by exact position_lt_read? _found

def headings (text : List UInt8) : List (List UInt8) :=
  headingsFrom (skipByteOrderMark ({ rest := text } : TextCursor))

theorem headingsFrom_none {c after : TextCursor}
    (found : read? (fun _ => true) c = (none, after)) : headingsFrom c = [] := by
  rw [headingsFrom]
  split
  next other => rfl
  next other => simp_all

theorem headingsFrom_some {c after : TextCursor} {record : Record}
    (found : read? (fun _ => true) c = (some record, after)) :
    headingsFrom c = (skipWhitespace c).rest :: headingsFrom after := by
  rw [headingsFrom]
  split
  next other => simp_all
  next other => simp_all

end Record

def headingsOf : List (List UInt8) → List (List UInt8)
  | [] => []
  | line :: rest =>
      if isBlankLine line then headingsOf rest
      else (line.dropWhile isWhitespaceByte ++ breaks rest) :: headingsOf (afterStack rest)
termination_by lines => lines.length
decreasing_by
  · exact Nat.lt_succ_self _
  · exact Nat.lt_succ_of_le (List.dropWhile_sublist _).length_le

theorem headingsOf_blank {line : List UInt8} (blank : isBlankLine line = true)
    (rest : List (List UInt8)) : headingsOf (line :: rest) = headingsOf rest := by
  rw [headingsOf, if_pos blank]

theorem headingsOf_header {line : List UInt8} (text : isBlankLine line = false)
    (rest : List (List UInt8)) :
    headingsOf (line :: rest) =
      (line.dropWhile isWhitespaceByte ++ breaks rest) :: headingsOf (afterStack rest) := by
  rw [headingsOf, if_neg (by simp [text])]

theorem Record.headingsFrom_eq {lines : List (List UInt8)} {c : TextCursor}
    (zero : c.sentinel = 0) (clean : ∀ line ∈ lines, 0x0A ∉ line)
    (text : c.rest.dropWhile isWhitespaceByte = (breaks lines).dropWhile isWhitespaceByte) :
    headingsFrom c = headingsOf lines := by
  have start : (skipWhitespace c).rest = (breaks lines).dropWhile isWhitespaceByte := by
    rw [← text]
    exact rest_skipWhile isWhitespaceByte c
  fun_induction headingsOf lines generalizing c with
  | case1 =>
    have ended : atEnd (skipWhitespace c) = true := List.isEmpty_iff.mpr start
    have none : read? (fun _ => true) c = (none, skipWhitespace c) := by simp [read?, ended]
    rw [headingsFrom_none none]
  | case2 line rest blank ih =>
    rw [dropWhile_breaks_blank blank] at text start
    exact ih zero (fun line member => clean line (by simp [member])) text start
  | case3 line rest some ih =>
    have some : isBlankLine line = false := by simpa using some
    have below : ∀ line ∈ rest, 0x0A ∉ line := fun line member => clean line (by simp [member])
    have noFeed : 0x0A ∉ line.dropWhile isWhitespaceByte := fun feed =>
      clean line (by simp) ((List.dropWhile_sublist _).subset feed)
    rw [dropWhile_breaks_text some] at text start
    obtain ⟨after, found, left, zero⟩ := read?_eq zero (dropWhile_ne_nil_of_not_all some) noFeed
      below text fun _ => true
    have more := ih zero (fun line member => below line (mem_of_mem_afterStack member))
      (congrArg _ left) (by
        rw [← left]
        exact rest_skipWhile isWhitespaceByte after)
    rw [headingsFrom_some found, start, more]

theorem Record.headings_eq (text : List UInt8) :
    headings text = headingsOf (linesOf (afterMark text)) := by
  have start := rest_skipByteOrderMark (c := { rest := text }) rfl
  obtain ⟨first, others, lines, whole⟩ := exists_linesOf (afterMark text)
  apply headingsFrom_eq start.2
  · intro line member
    exact noFeed_of_mem_linesOf member
  · rw [start.1, lines, whole, breaks_cons, List.dropWhile_cons_of_pos (by decide)]

theorem headingsOf_append_of_nil {before : List (List UInt8)} (none : layouts before = [])
    (after : List (List UInt8)) : headingsOf (before ++ after) = headingsOf after := by
  fun_induction layouts before with
  | case1 => rfl
  | case2 line rest blank ih =>
    rw [List.cons_append, headingsOf_blank blank]
    exact ih none
  | case3 line rest text ih => simp at none

/-- A line below an open record is not where a header is read: whatever is read as a header
holds more than that line and what follows it. -/
theorem length_lt_of_mem_headingsOf {lines : List (List UInt8)} (some : layouts lines ≠ [])
    (opens : ∀ line ∈ lines.dropWhile isBlankLine, closes line = true → isBlankLine line = false)
    {text : List UInt8} (going : closes text = false) :
    ∀ heading ∈ headingsOf (lines ++ [text, []]), (breaks [text, []]).length < heading.length := by
  have last : headingsOf [[]] = [] := by rw [headingsOf_blank rfl, headingsOf]
  fun_induction layouts lines with
  | case1 => simp at some
  | case2 line rest blank ih =>
    rw [List.dropWhile_cons_of_pos blank] at opens
    rw [List.cons_append, headingsOf_blank blank]
    exact ih some opens
  | case3 line rest header ih =>
    have isHeader : isBlankLine line = false := by simpa using header
    rw [List.dropWhile_cons_of_neg header] at opens
    intro heading among
    rw [List.cons_append, headingsOf_header isHeader] at among
    rcases List.mem_cons.mp among with rfl | below
    · have some := List.length_pos_iff.mpr (dropWhile_ne_nil_of_not_all isHeader)
      simp only [breaks_append, List.length_append]
      omega
    · by_cases wide : afterStack rest = []
      · rw [afterStack_append_of_open wide, afterStack_going going, afterStack_closed rfl,
          last] at below
        simp at below
      · rw [afterStack_append_of_closed wide] at below
        obtain ⟨next, others, shape⟩ := List.exists_cons_of_ne_nil wide
        have ends := closes_head?_afterStack rest
        rw [shape] at ends
        have among : ∀ line ∈ next :: others, line ∈ rest := fun line among =>
          mem_of_mem_afterStack (shape ▸ among)
        have nextHeader : isBlankLine next = false :=
          opens next (List.mem_cons_of_mem _ (among next (by simp))) (by simpa using ends)
        refine ih (by rw [shape, layouts_header nextHeader]; simp) ?_ heading below
        rw [shape, List.dropWhile_cons_of_neg (by simp [nextHeader])]
        exact fun line inside => opens line (List.mem_cons_of_mem _ (among line inside))

end ProfileTrace
