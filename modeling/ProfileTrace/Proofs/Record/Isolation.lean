import ProfileTrace.Proofs.Record.Parsing

/-! Cutting a text between its records. What lies before a closing line and what lies from it
on are read apart. Lines added to a text whose last record is still open belong to that
record, and lines added to blank lines are as if on their own. -/

namespace ProfileTrace
open Text

section
variable {lines : List (List UInt8)}

theorem stackOf_append_of_open (going : afterStack lines = []) (more : List (List UInt8)) :
    stackOf (lines ++ more) = lines ++ stackOf more := by
  have all := List.dropWhile_eq_nil_iff.mp going
  exact List.takeWhile_append_of_pos all

theorem afterStack_append_of_open (going : afterStack lines = []) (more : List (List UInt8)) :
    afterStack (lines ++ more) = afterStack more := by
  have all := List.dropWhile_eq_nil_iff.mp going
  exact List.dropWhile_append_of_pos all

theorem stackOf_of_open (going : afterStack lines = []) : stackOf lines = lines := by
  have all := stackOf_append_of_open going []
  simpa [stackOf] using all

theorem stackOf_append_of_closed (closed : afterStack lines ≠ []) (more : List (List UInt8)) :
    stackOf (lines ++ more) = stackOf lines := by
  have parts := stackOf_append_afterStack lines
  have ends := closes_head?_afterStack lines
  obtain ⟨line, others, shape⟩ := List.exists_cons_of_ne_nil closed
  rw [shape] at parts ends
  have ends : closes line = true := by simpa using ends
  have going : ∀ line ∈ stackOf lines, (!closes line) = true := fun line among => by
    simp [not_closes_of_mem_stackOf among]
  calc
    stackOf (lines ++ more) = stackOf (stackOf lines ++ (line :: others ++ more)) := by
      rw [← List.append_assoc, parts]
    _ = stackOf lines ++ stackOf (line :: others ++ more) := List.takeWhile_append_of_pos going
    _ = stackOf lines := by rw [List.cons_append, stackOf_closed ends, List.append_nil]

theorem afterStack_append_of_closed (closed : afterStack lines ≠ []) (more : List (List UInt8)) :
    afterStack (lines ++ more) = afterStack lines ++ more := by
  rw [afterStack, List.dropWhile_append, if_neg (by simpa [afterStack] using closed)]
  rfl

end

theorem layouts_append (before : List (List UInt8)) {after : List (List UInt8)}
    (ends : after.head?.all closes = true) :
    layouts (before ++ after) = layouts before ++ layouts after := by
  have here : stackOf after = [] ∧ afterStack after = after := by
    cases after with
    | nil => exact ⟨rfl, rfl⟩
    | cons line rest =>
      have ends : closes line = true := by simpa using ends
      exact ⟨stackOf_closed ends rest, afterStack_closed ends rest⟩
  fun_induction layouts before with
  | case1 => rfl
  | case2 line rest blank ih =>
    rw [List.cons_append, layouts_blank blank]
    exact ih
  | case3 line rest text ih =>
    have text : isBlankLine line = false := by simpa using text
    rw [List.cons_append, layouts_header text]
    by_cases going : afterStack rest = []
    · rw [stackOf_append_of_open going, afterStack_append_of_open going, here.1, here.2,
        stackOf_of_open going, going]
      simp
    · rw [stackOf_append_of_closed going, afterStack_append_of_closed going, ih, List.cons_append]

theorem layouts_append_of_nil {before : List (List UInt8)} (none : layouts before = [])
    (after : List (List UInt8)) : layouts (before ++ after) = layouts after := by
  fun_induction layouts before with
  | case1 => rfl
  | case2 line rest blank ih =>
    rw [List.cons_append, layouts_blank blank]
    exact ih none
  | case3 line rest text ih => simp at none

/-! ### The record that is still open -/

/-- The last record of the lines is still open: further lines go into its stack. -/
def EndsInside (lines : List (List UInt8)) : Prop :=
  ∃ others last, layouts lines = others ++ [last] ∧
    ∀ more, (∀ line ∈ more, closes line = false) →
      layouts (lines ++ more) = others ++ [{ last with lines := last.lines ++ more }]

/-- A record stays open unless a blank line closes it: a closing line that is not blank is the
header of the next one. -/
theorem endsInside {lines : List (List UInt8)} (some : layouts lines ≠ [])
    (opens : ∀ line ∈ lines.dropWhile isBlankLine,
      closes line = true → isBlankLine line = false) : EndsInside lines := by
  fun_induction layouts lines with
  | case1 => simp at some
  | case2 line rest blank ih =>
    rw [List.dropWhile_cons_of_pos blank] at opens
    obtain ⟨others, last, whole, extended⟩ := ih some opens
    refine ⟨others, last, by rw [layouts_blank blank, whole], ?_⟩
    intro more going
    rw [List.cons_append, layouts_blank blank]
    exact extended more going
  | case3 line rest text ih =>
    have isHeader : isBlankLine line = false := by simpa using text
    rw [List.dropWhile_cons_of_neg text] at opens
    -- the last record is the open one, unless some line closes its stack and begins another
    by_cases going : afterStack rest = []
    · refine ⟨[], ⟨line.dropWhile isWhitespaceByte, rest⟩, ?_, ?_⟩
      · rw [layouts_header isHeader, stackOf_of_open going, going]
        simp
      · intro more stack
        have none : afterStack more = [] := by
          apply List.dropWhile_eq_nil_iff.mpr
          intro line among
          simp [stack line among]
        rw [List.cons_append, layouts_header isHeader, stackOf_append_of_open going,
          afterStack_append_of_open going, none, stackOf_of_open none]
        simp
    · obtain ⟨next, below, shape⟩ := List.exists_cons_of_ne_nil going
      have ends := closes_head?_afterStack rest
      rw [shape] at ends
      have among : ∀ line ∈ next :: below, line ∈ rest := fun line among =>
        mem_of_mem_afterStack (shape ▸ among)
      have header : isBlankLine next = false :=
        opens next (List.mem_cons_of_mem _ (among next (by simp))) (by simpa using ends)
      obtain ⟨others, last, whole, extended⟩ := ih
        (by rw [shape, layouts_header header]; simp)
        (by
          rw [shape, List.dropWhile_cons_of_neg (by simp [header])]
          exact fun line inside => opens line (List.mem_cons_of_mem _ (among line inside)))
      refine ⟨⟨line.dropWhile isWhitespaceByte, stackOf rest⟩ :: others, last, ?_, ?_⟩
      · rw [layouts_header isHeader, whole, List.cons_append]
      · intro more stack
        rw [List.cons_append, layouts_header isHeader, stackOf_append_of_closed going,
          afterStack_append_of_closed going, extended more stack, List.cons_append]

end ProfileTrace
