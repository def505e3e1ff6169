import ProfileTrace.NameFilter.CharSet

/-! The flags of patterns, which change what the text of a pattern means, and the blanks
and comments between its parts that one of them allows. -/

namespace ProfileTrace.NameFilter

structure Flags where
  /-- A letter matches its case partners. -/
  caseless : Bool := false
  /-- The dot matches the ends of lines. -/
  dotAll : Bool := false
  /-- The start and end anchors match at lines. -/
  multiline : Bool := false
  /-- Carriage returns end lines, too. -/
  withReturns : Bool := false
  /-- Repetitions are lazy unless they are marked. -/
  isLazy : Bool := false
  /-- Blanks and comments stand for nothing. -/
  spaced : Bool := false
  /-- Classes, case partners and word edges are those of ASCII. -/
  ascii : Bool := false
  deriving DecidableEq, Repr

namespace Flags

def set? (flags : Flags) (letter : Char) (on : Bool) : Option Flags :=
  match letter with
  | 'i' => some { flags with caseless := on }
  | 's' => some { flags with dotAll := on }
  | 'm' => some { flags with multiline := on }
  | 'R' => some { flags with withReturns := on }
  | 'U' => some { flags with isLazy := on }
  | 'x' => some { flags with spaced := on }
  | 'u' => some { flags with ascii := !on }
  | _ => none

/-- The set, with the case partners of its members where case does not matter. -/
def withCase (flags : Flags) (set : CharSet) : CharSet :=
  if !flags.caseless then set else if flags.ascii then set.foldAscii else set.fold

/-- The set turned round. Of ASCII sets that would leave bytes that are no characters. -/
def complement? (flags : Flags) (set : CharSet) : Option CharSet :=
  if flags.ascii then none else some set.complement

def dropSpace (inComment : Bool) : List Char → List Char
  | [] => []
  | c :: rest =>
      if inComment then dropSpace (c != '\n') rest
      else if CharSet.blank.contains c then dropSpace false rest
      else if c == '#' then dropSpace true rest
      else c :: rest

def skip (flags : Flags) (chars : List Char) : List Char :=
  if flags.spaced then dropSpace false chars else chars

theorem length_dropSpace_le (inComment : Bool) (chars : List Char) :
    (dropSpace inComment chars).length ≤ chars.length := by
  induction chars generalizing inComment with
  | nil => simp [dropSpace]
  | cons c rest ih =>
    have shorter (b : Bool) := ih b
    unfold dropSpace
    split
    · exact Nat.le_succ_of_le (shorter _)
    · split
      · exact Nat.le_succ_of_le (shorter _)
      · split
        · exact Nat.le_succ_of_le (shorter _)
        · exact Nat.le_refl _

theorem length_skip_le (flags : Flags) (chars : List Char) :
    (flags.skip chars).length ≤ chars.length := by
  unfold skip
  split
  · exact length_dropSpace_le false chars
  · exact Nat.le_refl _

def takeWhile (flags : Flags) (p : Char → Bool) (chars : List Char) : List Char × List Char :=
  match chars with
  | [] => ([], [])
  | c :: rest =>
      if p c then
        let (taken, rest) := flags.takeWhile p (flags.skip rest)
        (c :: taken, rest)
      else ([], c :: rest)
termination_by chars.length
decreasing_by exact Nat.lt_succ_of_le (length_skip_le flags rest)

end Flags

end ProfileTrace.NameFilter
