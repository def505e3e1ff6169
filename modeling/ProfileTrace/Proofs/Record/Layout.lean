import Mathlib.Data.List.TakeWhile
import ProfileTrace.Proofs.Record.Columns

/-! A text as a list of lines, and the records that lie in it: a header, the first line that
is not blank, and the lines below it up to one that closes the record. The scanner finds
these records and reads each from its own lines. -/

namespace ProfileTrace
open Cursor Text
open TextCursor (LineTail)

def linesOf (text : List UInt8) : List (List UInt8) := text.splitOn 0x0A

def breaks (lines : List (List UInt8)) : List UInt8 := lines.flatMap (0x0A :: ·)

/-- Whether a line that begins so ends the record before it: an empty line, and one that
begins with a carriage return or with the sentinel. -/
def closes (line : List UInt8) : Bool := line.head?.all fun b => b == 0x0D || b == 0

def isBlankLine (line : List UInt8) : Bool := line.all isWhitespaceByte

def stackOf (lines : List (List UInt8)) : List (List UInt8) :=
  lines.takeWhile fun line => !closes line

def afterStack (lines : List (List UInt8)) : List (List UInt8) :=
  lines.dropWhile fun line => !closes line

section
variable {line : List UInt8}

theorem stackOf_closed (ends : closes line = true) (rest : List (List UInt8)) :
    stackOf (line :: rest) = [] := by
  simp [stackOf, ends]

theorem afterStack_closed (ends : closes line = true) (rest : List (List UInt8)) :
    afterStack (line :: rest) = line :: rest := by
  simp [afterStack, ends]

theorem stackOf_going (going : closes line = false) (rest : List (List UInt8)) :
    stackOf (line :: rest) = line :: stackOf rest := by
  simp [stackOf, going]

theorem afterStack_going (going : closes line = false) (rest : List (List UInt8)) :
    afterStack (line :: rest) = afterStack rest := by
  simp [afterStack, going]

end

theorem closes_head?_afterStack (lines : List (List UInt8)) :
    (afterStack lines).head?.all closes = true := by
  induction lines with
  | nil => rfl
  | cons line lines ih =>
    cases ends : closes line with
    | true => simp [afterStack_closed ends, ends]
    | false => rwa [afterStack_going ends]

theorem not_closes_of_mem_stackOf {lines : List (List UInt8)} {line : List UInt8}
    (among : line ∈ stackOf lines) : closes line = false := by
  have going := List.mem_takeWhile_imp among
  simpa using going

theorem stackOf_append_afterStack (lines : List (List UInt8)) :
    stackOf lines ++ afterStack lines = lines :=
  List.takeWhile_append_dropWhile

theorem mem_of_mem_afterStack {lines : List (List UInt8)} {line : List UInt8}
    (among : line ∈ afterStack lines) : line ∈ lines :=
  (List.dropWhile_sublist _).subset among

/-- The bytes of one record: its header, from the first byte that is not blank, and the
lines of its stack. -/
structure RecordLayout where
  header : List UInt8
  lines : List (List UInt8)
  deriving DecidableEq, Repr

/-- The records that lie in the lines. The line that closes one may be the next header. -/
def layouts : List (List UInt8) → List RecordLayout
  | [] => []
  | line :: rest =>
      if isBlankLine line then layouts rest
      else
        { header := line.dropWhile isWhitespaceByte, lines := stackOf rest } ::
          layouts (afterStack rest)
termination_by lines => lines.length
decreasing_by
  · exact Nat.lt_succ_self _
  · exact Nat.lt_succ_of_le (List.dropWhile_sublist _).length_le

@[simp] theorem layouts_nil : layouts [] = [] := by rw [layouts]

theorem layouts_blank {line : List UInt8} (blank : isBlankLine line = true)
    (rest : List (List UInt8)) : layouts (line :: rest) = layouts rest := by
  rw [layouts, if_pos blank]

theorem layouts_header {line : List UInt8} (text : isBlankLine line = false)
    (rest : List (List UInt8)) :
    layouts (line :: rest) =
      ⟨line.dropWhile isWhitespaceByte, stackOf rest⟩ :: layouts (afterStack rest) := by
  rw [layouts, if_neg (by simp [text])]

@[simp] theorem breaks_nil : breaks [] = [] := rfl

@[simp] theorem breaks_cons (line : List UInt8) (rest : List (List UInt8)) :
    breaks (line :: rest) = 0x0A :: (line ++ breaks rest) := rfl

theorem breaks_append (first second : List (List UInt8)) :
    breaks (first ++ second) = breaks first ++ breaks second :=
  List.flatMap_append

theorem lineTail_breaks (lines : List (List UInt8)) : LineTail (breaks lines) := by
  cases lines with
  | nil => exact .none
  | cons line rest => exact .feed _

theorem dropWhile_eq_nil_of_all {line : List UInt8} (blank : isBlankLine line = true) :
    line.dropWhile isWhitespaceByte = [] :=
  List.dropWhile_eq_nil_iff.mpr (by simpa [isBlankLine] using blank)

theorem dropWhile_ne_nil_of_not_all {line : List UInt8}
    (text : isBlankLine line = false) : line.dropWhile isWhitespaceByte ≠ [] := by
  intro none
  have blank := List.dropWhile_eq_nil_iff.mp none
  simp only [isBlankLine, List.all_eq_false] at text
  obtain ⟨b, inside, noBlank⟩ := text
  exact noBlank (blank b inside)

theorem dropWhile_breaks_blank {line : List UInt8} (blank : isBlankLine line = true)
    (rest : List (List UInt8)) :
    (breaks (line :: rest)).dropWhile isWhitespaceByte =
      (breaks rest).dropWhile isWhitespaceByte := by
  rw [breaks_cons, List.dropWhile_cons_of_pos (by decide), List.dropWhile_append,
    dropWhile_eq_nil_of_all blank]
  rfl

theorem dropWhile_breaks_text {line : List UInt8} (text : isBlankLine line = false)
    (rest : List (List UInt8)) :
    (breaks (line :: rest)).dropWhile isWhitespaceByte =
      line.dropWhile isWhitespaceByte ++ breaks rest := by
  rw [breaks_cons, List.dropWhile_cons_of_pos (by decide), List.dropWhile_append,
    if_neg (by simpa using dropWhile_ne_nil_of_not_all text)]

theorem noFeed_of_mem_linesOf {text line : List UInt8} (among : line ∈ linesOf text) :
    0x0A ∉ line := by
  induction text generalizing line with
  | nil => simp_all [linesOf]
  | cons b rest ih =>
    rw [linesOf, List.splitOn_cons_eq_if_modifyHead] at among
    split at among
    next feed =>
      rcases List.mem_cons.mp among with rfl | later
      · simp
      · exact ih later
    next noFeed =>
      obtain ⟨first, others, shape⟩ := List.exists_cons_of_ne_nil (List.splitOn_ne_nil 0x0A rest)
      rw [shape, List.modifyHead_cons] at among
      have later : ∀ line ∈ first :: others, 0x0A ∉ line := by
        intro line member
        exact ih (by rw [linesOf, shape]; exact member)
      rcases List.mem_cons.mp among with rfl | other
      · intro feed
        rcases List.mem_cons.mp feed with same | inside
        · simp [← same] at noFeed
        · exact later first (by simp) inside
      · exact later line (by simp [other])

theorem exists_linesOf (text : List UInt8) :
    ∃ first others, linesOf text = first :: others ∧ text = first ++ breaks others := by
  obtain ⟨first, others, shape⟩ := List.exists_cons_of_ne_nil (List.splitOn_ne_nil 0x0A text)
  refine ⟨first, others, shape, ?_⟩
  have joined : [0x0A].intercalate (text.splitOn 0x0A) = text := List.intercalate_splitOn 0x0A
  rw [shape] at joined
  rw [← joined]
  clear shape joined
  induction others generalizing first with
  | nil => simp
  | cons second others ih =>
    rw [List.intercalate_cons_cons, ih second]
    simp

theorem linesOf_append_breaks {first : List UInt8} (noFeed : 0x0A ∉ first)
    {others : List (List UInt8)} (clean : ∀ line ∈ others, 0x0A ∉ line) :
    linesOf (first ++ breaks others) = first :: others := by
  induction others generalizing first with
  | nil => simpa [linesOf] using List.splitOn_eq_singleton noFeed
  | cons second others ih =>
    have rest := ih (clean second (by simp)) fun line member => clean line (by simp [member])
    rw [breaks_cons, linesOf, List.splitOn_append_cons_self, List.splitOn_eq_singleton noFeed]
    exact congrArg (first :: ·) rest

theorem linesOf_breaks {lines : List (List UInt8)} (clean : ∀ line ∈ lines, 0x0A ∉ line) :
    linesOf (breaks lines) = [] :: lines :=
  linesOf_append_breaks List.not_mem_nil clean

end ProfileTrace
