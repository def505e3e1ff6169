import ProfileTrace.Cursor.Basic
import ProfileTrace.Reader

/-! A cursor over a source of bytes that holds a window of them: the unread bytes that
have been fetched, and some bytes already passed, so that a short step back needs no
seek. The source always stands at the end of the window. A fault is kept and the
stream then counts as ended. -/

namespace ProfileTrace

/-- Passed bytes that a refill keeps. -/
def historyLength : Nat := 256

def leastCapacity : Nat := 2 * historyLength

def defaultCapacity : Nat := 16 * 1024

structure StreamCursor where
  reader : Reader
  /-- The offset of the first unread byte. -/
  position : Nat
  /-- Bytes before the position that are still held, the latest first. -/
  history : List UInt8 := []
  unread : List UInt8 := []
  capacity : Nat
  /-- The source has said that nothing follows the window, or has failed. -/
  ended : Bool := false
  sentinel : UInt8 := 0
  fault : Option Fault := none
  /-- A window that holds anything lies within the source. -/
  within : history ≠ [] ∨ unread ≠ [] → position + unread.length ≤ reader.bytes.size := by simp

namespace StreamCursor

def current (c : StreamCursor) : UInt8 := c.unread.headD c.sentinel

def atEnd (c : StreamCursor) : Bool := c.unread.isEmpty

def held (c : StreamCursor) : Nat := c.history.length + c.unread.length

def slide (c : StreamCursor) : StreamCursor :=
  { c with
    history := c.history.take historyLength
    within := by
      intro some
      apply c.within
      cases some with
      | inl kept => exact Or.inl fun none => kept (by simp [none])
      | inr ahead => exact Or.inr ahead }

/-- Fetches until the window holds `needed` bytes or the source has ended. -/
def fillTo (needed : Nat) (c : StreamCursor) : StreamCursor :=
  if c.ended then c
  else
    let held := c.held
    let delivery :=
      c.reader.gather (c.position + c.unread.length) (needed - held) (c.capacity - held)
    { c with
      reader := delivery.reader
      unread := c.unread ++ delivery.bytes
      ended := delivery.ended
      fault := if delivery.failed then c.fault <|> some .readFailed else c.fault
      within := by
        intro some
        have bound : delivery.bytes.length ≤
            c.reader.bytes.size - (c.position + c.unread.length) :=
          c.reader.length_gather _ _ _
        rw [Reader.bytes_gather, List.length_append]
        by_cases before : c.history ≠ [] ∨ c.unread ≠ []
        · have := c.within before
          omega
        · simp only [not_or, Decidable.not_not] at before
          have fetched : delivery.bytes ≠ [] := by
            cases some with
            | inl kept => exact absurd before.1 kept
            | inr ahead => simpa [before.2] using ahead
          have positive : 0 < delivery.bytes.length := List.length_pos_iff.mpr fetched
          omega }

/-- Makes the byte `ahead` places past the position available, if there is one. A
window too small for it grows. -/
def ensure (ahead : Nat) (c : StreamCursor) : Bool × StreamCursor :=
  if !(c.unread.drop ahead).isEmpty then (true, c)
  else if c.ended then (false, c)
  else
    let c := c.slide
    let needed := c.history.length + ahead + 1
    let filled := fillTo needed { c with capacity := max c.capacity needed, within := c.within }
    (!(filled.unread.drop ahead).isEmpty, filled)

/-- A cursor over the source from where it stands, with at least one byte fetched. A
source that cannot tell where it stands counts as ended. -/
def ofReader (reader : Reader) (capacity : Nat := defaultCapacity) (sentinel : UInt8 := 0) :
    StreamCursor :=
  fillTo 1
    { reader, sentinel
      position := if reader.canTell then reader.start else 0
      capacity := max capacity leastCapacity
      ended := !reader.canTell
      fault := if reader.canTell then none else some .tellFailed }

def ofBytes (bytes : ByteArray) : StreamCursor :=
  ofReader (Reader.ofBytes bytes) (max bytes.size (leastCapacity - 1) + 1)

def skip (count : Nat) (c : StreamCursor) : StreamCursor :=
  let passed := c.unread.take count
  { c with
    position := c.position + passed.length
    history := passed.reverse ++ c.history
    unread := c.unread.drop count
    within := by
      intro some
      have taken : passed.length + (c.unread.drop count).length = c.unread.length := by
        rw [← List.length_append, List.take_append_drop]
      have before : c.history ≠ [] ∨ c.unread ≠ [] := by
        by_cases kept : c.history = []
        · refine Or.inr fun none => ?_
          simp [passed, kept, none] at some
        · exact Or.inl kept
      have := c.within before
      omega }

def unskip (count : Nat) (c : StreamCursor) (bound : count ≤ c.position) : StreamCursor :=
  let again := c.history.take count
  { c with
    position := c.position - again.length
    history := c.history.drop count
    unread := again.reverse ++ c.unread
    within := by
      intro some
      have before : c.history ≠ [] ∨ c.unread ≠ [] := by
        by_cases kept : c.history = []
        · refine Or.inr fun none => ?_
          simp [again, kept, none] at some
        · exact Or.inl kept
      have := c.within before
      have short : again.length ≤ count := List.length_take_le _ _
      rw [List.length_append, List.length_reverse]
      omega }

/-- Makes the current byte available, if there is one. -/
def settle (c : StreamCursor) : StreamCursor :=
  if c.atEnd then (c.ensure 0).2 else c

def advance (c : StreamCursor) : Bool × StreamCursor :=
  (c.skip 1).ensure 0

def peek (ahead : Nat) (c : StreamCursor) : UInt8 × StreamCursor :=
  let (available, c) := c.ensure ahead
  (if available then (c.unread.drop ahead).headD c.sentinel else c.sentinel, c)

/-- Goes to an offset: inside the window by moving over it, anywhere else by a seek. A
seek that fails is a fault and leaves the cursor at the end of its window. -/
def goTo (place : Nat) (c : StreamCursor) : StreamCursor :=
  if back : c.position - c.history.length ≤ place ∧ place ≤ c.position then
    (c.unskip (c.position - place) (Nat.sub_le _ _)).settle
  else if c.position ≤ place ∧ place ≤ c.position + c.unread.length then
    (c.skip (place - c.position)).settle
  else if c.reader.canSeek then
    fillTo 1 { c with position := place, history := [], unread := [], ended := false,
                      within := by simp }
  else
    { c.skip c.unread.length with fault := c.fault <|> some .seekFailed,
                                  within := (c.skip c.unread.length).within }

def fillWindow (c : StreamCursor) : StreamCursor :=
  if c.ended then c else fillTo c.capacity c.slide

def consume (count : Nat) (c : StreamCursor) : StreamCursor :=
  (c.skip count).settle

/-- The first fault since the last report, which is then forgotten. -/
def takeFault (c : StreamCursor) : Option Fault × StreamCursor :=
  (c.fault, { c with fault := none, within := c.within })

@[simp] theorem bytes_fillTo (needed : Nat) (c : StreamCursor) :
    (c.fillTo needed).reader.bytes = c.reader.bytes := by
  unfold fillTo
  split <;> simp

@[simp] theorem position_fillTo (needed : Nat) (c : StreamCursor) :
    (c.fillTo needed).position = c.position := by
  unfold fillTo
  split <;> rfl

@[simp] theorem sentinel_fillTo (needed : Nat) (c : StreamCursor) :
    (c.fillTo needed).sentinel = c.sentinel := by
  unfold fillTo
  split <;> rfl

theorem unread_fetched_fillTo (needed : Nat) (c : StreamCursor) :
    c.unread <+: (c.fillTo needed).unread := by
  unfold fillTo
  split
  · exact List.prefix_refl _
  · exact List.prefix_append _ _

@[simp] theorem bytes_ensure (ahead : Nat) (c : StreamCursor) :
    (c.ensure ahead).2.reader.bytes = c.reader.bytes := by
  unfold ensure
  split
  · rfl
  · split
    · rfl
    · simp [slide]

@[simp] theorem position_ensure (ahead : Nat) (c : StreamCursor) :
    (c.ensure ahead).2.position = c.position := by
  unfold ensure
  split
  · rfl
  · split
    · rfl
    · simp [slide]

@[simp] theorem sentinel_ensure (ahead : Nat) (c : StreamCursor) :
    (c.ensure ahead).2.sentinel = c.sentinel := by
  unfold ensure
  split
  · rfl
  · split
    · rfl
    · simp [slide]

theorem unread_fetched_ensure (ahead : Nat) (c : StreamCursor) :
    c.unread <+: (c.ensure ahead).2.unread := by
  unfold ensure
  split
  · exact List.prefix_refl _
  · split
    · exact List.prefix_refl _
    · exact unread_fetched_fillTo _ { c.slide with capacity := _, within := _ }

theorem fst_ensure (ahead : Nat) (c : StreamCursor) :
    (c.ensure ahead).1 = !((c.ensure ahead).2.unread.drop ahead).isEmpty := by
  unfold ensure
  split
  next available => exact available.symm
  next missing =>
    split
    · simpa using missing
    · rfl

@[simp] theorem bytes_settle (c : StreamCursor) : c.settle.reader.bytes = c.reader.bytes := by
  unfold settle
  split <;> simp

@[simp] theorem position_settle (c : StreamCursor) : c.settle.position = c.position := by
  unfold settle
  split <;> simp

theorem bytes_goTo (place : Nat) (c : StreamCursor) :
    (c.goTo place).reader.bytes = c.reader.bytes := by
  unfold goTo
  split
  · simp [unskip]
  · split
    · simp [skip]
    · split
      · simp
      · rfl

theorem position_goTo {place : Nat} {c : StreamCursor} (behind : place ≤ c.position) :
    place ≤ (c.goTo place).position := by
  unfold goTo
  split
  next back =>
    rw [position_settle]
    simp only [unskip, List.length_take]
    omega
  next =>
    split
    · rw [position_settle]
      simp only [skip]
      omega
    · split
      · simp
      · simp only [skip]
        omega

theorem atEnd_eq_false_of_fetched {before after : StreamCursor}
    (kept : before.unread <+: after.unread) (within : before.atEnd = false) :
    after.atEnd = false ∧ after.unread.head? = before.unread.head? := by
  obtain ⟨more, same⟩ := kept
  unfold atEnd at within ⊢
  cases found : before.unread with
  | nil => simp [found] at within
  | cons b rest =>
    rw [found] at same
    simp [← same]

instance : Cursor StreamCursor where
  Mark := Nat
  current := current
  atEnd := atEnd
  position := position
  limit c := c.reader.bytes.size
  sentinel := sentinel
  advance := advance
  peek := peek
  mark := position
  restore := goTo
  position_lt_limit := by
    intro c ahead
    have some : c.unread ≠ [] := by simpa [atEnd] using ahead
    have := c.within (Or.inr some)
    have := List.length_pos_iff.mpr some
    omega
  limit_advance c := by simp [advance, skip]
  position_advance c := by
    unfold advance
    rw [position_ensure]
    cases found : c.unread <;> simp [skip, atEnd, found]
  fst_advance c := by
    unfold advance
    rw [fst_ensure]
    rfl
  limit_peek n c := by simp [peek]
  position_peek n c := by simp [peek]
  atEnd_peek n c ahead :=
    (atEnd_eq_false_of_fetched (unread_fetched_ensure n c) ahead).1
  current_peek n c ahead := by
    have same := (atEnd_eq_false_of_fetched (unread_fetched_ensure n c) ahead).2
    have some : c.unread ≠ [] := by simpa [atEnd] using ahead
    simp only [peek, current, List.headD_eq_head?_getD, same]
    cases found : c.unread with
    | nil => exact absurd found some
    | cons b rest => rfl
  limit_restore {c after} same := by
    rw [bytes_goTo]
    exact same
  position_restore _ behind := position_goTo behind

@[simp] theorem bytes_fillWindow (c : StreamCursor) :
    c.fillWindow.reader.bytes = c.reader.bytes := by
  unfold fillWindow
  split <;> simp [slide]

@[simp] theorem position_fillWindow (c : StreamCursor) :
    c.fillWindow.position = c.position := by
  unfold fillWindow
  split <;> simp [slide]

theorem reaches_consume (count : Nat) (c : StreamCursor) :
    Cursor.Reaches c (c.consume count) := by
  refine ⟨?_, ?_⟩
  · simp [Cursor.limit, consume, skip]
  · simp [Cursor.position, consume, skip]

theorem position_lt_consume {count : Nat} {c : StreamCursor} (some : c.unread ≠ [])
    (positive : 0 < count) : c.position < (c.consume count).position := by
  have := List.length_pos_iff.mpr some
  simp only [consume, position_settle, skip, List.length_take]
  omega

end StreamCursor

end ProfileTrace
