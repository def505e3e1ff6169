import ProfileTrace.Cursor.InMemory
import ProfileTrace.Cursor.Stream
import ProfileTrace.Proofs.Cursor.Source

/-! The window of a cursor over a source that never fails. Its unread bytes are those of the
source from the position on, whatever is fetched, slid or passed; and the passed bytes that it
still holds are those just before the position, so that going back inside the window finds them
again. -/

namespace ProfileTrace.StreamCursor

/-- The unread bytes are the next ones of the source, and all of them once it has ended. -/
structure Reflects (content : List UInt8) (c : StreamCursor) : Prop where
  calm : c.reader.Faultless
  source : c.reader.content = content
  noFault : c.fault = none
  fetched : c.unread <+: content.drop c.position
  all : c.ended = true → c.unread = content.drop c.position

variable {content : List UInt8} {c : StreamCursor}

theorem Reflects.drop_eq (reflects : Reflects content c) :
    content.drop c.position = c.unread ++ content.drop (c.position + c.unread.length) := by
  have whole := List.prefix_iff_eq_append.mp reflects.fetched
  rw [List.drop_drop] at whole
  exact whole.symm

theorem Reflects.slide (reflects : Reflects content c) : Reflects content c.slide :=
  ⟨reflects.calm, reflects.source, reflects.noFault, reflects.fetched, reflects.all⟩

@[simp] theorem history_fillTo (needed : Nat) (c : StreamCursor) :
    (c.fillTo needed).history = c.history := by
  unfold fillTo
  split <;> rfl

@[simp] theorem capacity_fillTo (needed : Nat) (c : StreamCursor) :
    (c.fillTo needed).capacity = c.capacity := by
  unfold fillTo
  split <;> rfl

@[simp] theorem canSeek_fillTo (needed : Nat) (c : StreamCursor) :
    (c.fillTo needed).reader.canSeek = c.reader.canSeek := by
  unfold fillTo
  split <;> simp

theorem Reflects.fillTo (reflects : Reflects content c) {needed : Nat}
    (fits : needed ≤ c.capacity) :
    Reflects content (c.fillTo needed) ∧
      ((c.fillTo needed).ended = false → needed ≤ (c.fillTo needed).held) := by
  unfold StreamCursor.fillTo
  split
  next ended => exact ⟨reflects, by simp [ended]⟩
  next going =>
    have delivery : Reader.Delivers c.reader (c.position + c.unread.length) (needed - c.held)
        (c.reader.gather (c.position + c.unread.length) (needed - c.held)
          (c.capacity - c.held)) :=
      reflects.calm.delivers_gather (by omega)
    have source := Reader.bytes_gather c.reader (c.position + c.unread.length) (needed - c.held)
      (c.capacity - c.held)
    have ahead := reflects.drop_eq
    rw [← reflects.source] at ahead
    refine ⟨⟨delivery.calm, ?_, ?_, ?_, ?_⟩, ?_⟩
    · rw [← reflects.source]
      exact congrArg (fun bytes => bytes.data.toList) source
    · simp only [delivery.noFailure, Bool.false_eq_true, if_false, reflects.noFault]
    · rw [← reflects.source, ahead]
      exact List.prefix_append_right_inj c.unread |>.mpr delivery.part
    · intro ended
      rw [← reflects.source, ahead]
      exact congrArg (c.unread ++ ·) (delivery.all ended)
    · intro more
      have enough := delivery.enough more
      simp only [held, List.length_append] at enough ⊢
      omega

theorem Reflects.settled_fillTo (reflects : Reflects content c) {needed : Nat}
    (fits : needed ≤ c.capacity) (more : c.history.length < needed)
    (none : (c.fillTo needed).unread = []) : content.drop c.position = [] := by
  obtain ⟨filled, enough⟩ := reflects.fillTo fits
  cases ended : (c.fillTo needed).ended with
  | true => rw [← position_fillTo needed, ← filled.all ended, none]
  | false =>
    have enough := enough ended
    simp only [held, history_fillTo, none, List.length_nil] at enough
    omega

/-- The window that is filled when a byte ahead is missing: it has room for that byte. -/
def widened (ahead : Nat) (c : StreamCursor) : StreamCursor :=
  { c.slide with
    capacity := max c.slide.capacity (c.slide.history.length + ahead + 1)
    within := c.slide.within }

theorem ensure_of_missing {ahead : Nat} (missing : c.unread.drop ahead = [])
    (going : c.ended = false) :
    (c.ensure ahead).2 = (c.widened ahead).fillTo (c.slide.history.length + ahead + 1) := by
  simp [ensure, missing, going, widened]

theorem ensure_of_available {ahead : Nat} (available : c.unread.drop ahead ≠ []) :
    (c.ensure ahead).2 = c := by
  simp [ensure, available]

theorem settle_eq (c : StreamCursor) : c.settle = (c.ensure 0).2 := by
  unfold settle
  split
  · rfl
  next within =>
    refine (ensure_of_available ?_).symm
    simpa [StreamCursor.atEnd] using within

theorem ensure_of_ended {ahead : Nat} (ended : c.ended = true) : (c.ensure ahead).2 = c := by
  simp only [ensure, ended, if_true]
  split <;> rfl

/-- What making a byte available can do: nothing, or filling a widened window. -/
theorem ensure_cases (ahead : Nat) (c : StreamCursor) :
    ((c.ensure ahead).2 = c ∧ (c.unread.drop ahead ≠ [] ∨ c.ended = true)) ∨
      (c.ensure ahead).2 = (c.widened ahead).fillTo (c.slide.history.length + ahead + 1) := by
  by_cases available : c.unread.drop ahead = []
  · cases ended : c.ended with
    | true => exact .inl ⟨ensure_of_ended ended, .inr rfl⟩
    | false => exact .inr (ensure_of_missing available ended)
  · exact .inl ⟨ensure_of_available available, .inl available⟩

theorem capacity_le_ensure (ahead : Nat) (c : StreamCursor) :
    c.capacity ≤ (c.ensure ahead).2.capacity := by
  rcases ensure_cases ahead c with ⟨same, -⟩ | filling
  · exact Nat.le_of_eq (congrArg capacity same).symm
  · rw [filling, capacity_fillTo]
    exact Nat.le_max_left _ _

theorem capacity_ensure {ahead : Nat} (near : historyLength + ahead + 1 ≤ c.capacity) :
    (c.ensure ahead).2.capacity = c.capacity := by
  rcases ensure_cases ahead c with ⟨same, -⟩ | filling
  · rw [same]
  · have passed : c.slide.history.length ≤ historyLength := List.length_take_le _ _
    rw [filling, capacity_fillTo]
    exact Nat.max_eq_left (Nat.le_trans (by omega) near)

theorem history_ensure (ahead : Nat) (c : StreamCursor) :
    (c.ensure ahead).2.history <+: c.history := by
  rcases ensure_cases ahead c with ⟨same, -⟩ | filling
  · exact congrArg history same ▸ List.prefix_refl _
  · rw [filling, history_fillTo]
    exact List.take_prefix _ _

@[simp] theorem canSeek_ensure (ahead : Nat) (c : StreamCursor) :
    (c.ensure ahead).2.reader.canSeek = c.reader.canSeek := by
  rcases ensure_cases ahead c with ⟨same, -⟩ | filling
  · rw [same]
  · rw [filling, canSeek_fillTo]
    rfl

theorem Reflects.ensure (reflects : Reflects content c) (ahead : Nat) :
    Reflects content (c.ensure ahead).2 ∧
      ((c.ensure ahead).2.unread.drop ahead = [] → content.drop (c.position + ahead) = []) := by
  rcases ensure_cases ahead c with ⟨same, there⟩ | filling
  · rw [same]
    refine ⟨reflects, ?_⟩
    intro none
    rcases there with available | ended
    · exact absurd none available
    · rw [← List.drop_drop, ← reflects.all ended, none]
  · have wide : Reflects content (c.widened ahead) :=
      ⟨reflects.calm, reflects.source, reflects.noFault, reflects.fetched, reflects.all⟩
    obtain ⟨filled, enough⟩ := wide.fillTo (Nat.le_max_right _ _)
    rw [filling]
    refine ⟨filled, ?_⟩
    intro none
    cases ended : ((c.widened ahead).fillTo (c.slide.history.length + ahead + 1)).ended with
    | true =>
      have all := filled.all ended
      rw [position_fillTo] at all
      rw [← List.drop_drop]
      exact (congrArg (List.drop ahead) all).symm.trans none
    | false =>
      have enough := enough ended
      have short := List.drop_eq_nil_iff.mp none
      simp only [held, history_fillTo, widened] at enough short
      omega

theorem position_skip (count : Nat) (c : StreamCursor) :
    (c.skip count).position = c.position + min count c.unread.length := by
  simp only [skip, List.length_take]

theorem Reflects.skip (reflects : Reflects content c) (count : Nat) :
    Reflects content (c.skip count) := by
  have left : (c.skip count).unread = c.unread.drop (min count c.unread.length) := by
    by_cases inside : count ≤ c.unread.length
    · rw [Nat.min_eq_left inside]
      rfl
    · rw [Nat.min_eq_right (by omega), List.drop_length]
      exact List.drop_eq_nil_of_le (by omega)
  refine ⟨reflects.calm, reflects.source, reflects.noFault, ?_, ?_⟩
  · rw [position_skip, left, ← List.drop_drop]
    obtain ⟨more, whole⟩ := reflects.fetched
    rw [← whole, List.drop_append_of_le_length (Nat.min_le_right _ _)]
    exact List.prefix_append _ more
  · intro ended
    rw [position_skip, left, ← List.drop_drop, ← reflects.all ended]

/-! ### The current byte -/

structure Shows (content : List UInt8) (c : StreamCursor) : Prop extends
    Reflects content c where
  settled : c.unread = [] → content.drop c.position = []

theorem Shows.of_ensure (reflects : Reflects content c) : Shows content (c.ensure 0).2 where
  toReflects := (reflects.ensure 0).1
  settled none := by
    rw [position_ensure]
    exact (reflects.ensure 0).2 none

theorem Shows.of_fillTo (reflects : Reflects content c) {needed : Nat}
    (fits : needed ≤ c.capacity) (more : c.history.length < needed) :
    Shows content (c.fillTo needed) where
  toReflects := (reflects.fillTo fits).1
  settled none := by
    rw [position_fillTo]
    exact reflects.settled_fillTo fits more none

theorem Shows.fillWindow (shown : Shows content c) (least : leastCapacity ≤ c.capacity) :
    Shows content c.fillWindow := by
  unfold StreamCursor.fillWindow
  split
  · exact shown
  next going =>
    have passed : c.slide.history.length ≤ historyLength := List.length_take_le _ _
    have wide : historyLength < leastCapacity := by decide
    exact .of_fillTo shown.toReflects.slide (Nat.le_refl c.capacity)
      (Nat.lt_of_le_of_lt passed (Nat.lt_of_lt_of_le wide least))

/-! ### The passed bytes -/

/-- The passed bytes that are held are those just before the position, so that the cursor can
go back to them. -/
structure Remembers (content : List UInt8) (c : StreamCursor) : Prop extends
    Reflects content c where
  seeks : c.reader.canSeek = true
  least : leastCapacity ≤ c.capacity
  behind : c.history.length ≤ c.position
  passed : content.drop (c.position - c.history.length) =
    c.history.reverse ++ content.drop c.position

theorem Remembers.latest (remembers : Remembers content c) {latest : List UInt8}
    (part : latest <+: c.history) :
    content.drop (c.position - latest.length) = latest.reverse ++ content.drop c.position := by
  obtain ⟨older, whole⟩ := part
  have sizes := congrArg List.length whole
  rw [List.length_append] at sizes
  have behind := remembers.behind
  have place : c.position - latest.length = c.position - c.history.length + older.length := by
    omega
  calc
    content.drop (c.position - latest.length)
        = (c.history.reverse ++ content.drop c.position).drop older.length := by
          rw [place, ← List.drop_drop, remembers.passed]
    _ = (older.reverse ++ (latest.reverse ++ content.drop c.position)).drop
          older.reverse.length := by
          rw [← whole, List.reverse_append, List.append_assoc, List.length_reverse]
    _ = latest.reverse ++ content.drop c.position := List.drop_left

theorem Remembers.of_prefix (remembers : Remembers content c) {after : StreamCursor}
    (reflects : Reflects content after) (seeks : after.reader.canSeek = c.reader.canSeek)
    (least : c.capacity ≤ after.capacity) (place : after.position = c.position)
    (part : after.history <+: c.history) : Remembers content after where
  toReflects := reflects
  seeks := seeks.trans remembers.seeks
  least := Nat.le_trans remembers.least least
  behind := by
    rw [place]
    exact Nat.le_trans part.length_le remembers.behind
  passed := by
    rw [place]
    exact remembers.latest part

theorem Remembers.ensure (remembers : Remembers content c) (ahead : Nat) :
    Remembers content (c.ensure ahead).2 :=
  remembers.of_prefix (remembers.toReflects.ensure ahead).1 (canSeek_ensure ahead c)
    (capacity_le_ensure ahead c) (position_ensure ahead c) (history_ensure ahead c)

theorem Remembers.skip (remembers : Remembers content c) (count : Nat) :
    Remembers content (c.skip count) where
  toReflects := remembers.toReflects.skip count
  seeks := remembers.seeks
  least := remembers.least
  behind := by
    have behind := remembers.behind
    simp only [StreamCursor.skip, List.length_append, List.length_reverse]
    omega
  passed := by
    have taken : c.unread.take count <+: content.drop c.position :=
      (List.take_prefix _ _).trans remembers.fetched
    have behind := remembers.behind
    have place : c.position + (c.unread.take count).length -
        ((c.unread.take count).length + c.history.length) = c.position - c.history.length := by
      omega
    simp only [StreamCursor.skip, List.length_append, List.length_reverse, List.reverse_append,
      List.reverse_reverse, place, remembers.passed, List.append_assoc]
    rw [← List.drop_drop, List.prefix_iff_eq_append.mp taken]

theorem Remembers.unskip (remembers : Remembers content c) {count : Nat}
    (bound : count ≤ c.position) (inside : count ≤ c.history.length) :
    Remembers content (c.unskip count bound) ∧
      (c.unskip count bound).position = c.position - count := by
  have size : (c.history.take count).length = count := List.length_take_of_le inside
  have again := remembers.latest (List.take_prefix count c.history)
  rw [size] at again
  have place : (c.unskip count bound).position = c.position - count := by
    simp only [StreamCursor.unskip, size]
  have behind := remembers.behind
  refine ⟨⟨⟨remembers.calm, remembers.source, remembers.noFault, ?_, ?_⟩, remembers.seeks,
    remembers.least, ?_, ?_⟩, place⟩
  · rw [place, again]
    exact List.prefix_append_right_inj _ |>.mpr remembers.fetched
  · intro ended
    rw [place, again]
    exact congrArg ((c.history.take count).reverse ++ ·) (remembers.all ended)
  · rw [place]
    simp only [StreamCursor.unskip, List.length_drop]
    omega
  · have offset : c.position - count - (c.history.length - count) =
        c.position - c.history.length := by
      omega
    rw [place, again]
    simp only [StreamCursor.unskip, List.length_drop, offset, remembers.passed]
    rw [← List.append_assoc, ← List.reverse_append, List.take_append_drop]

/-! ### Moving about -/

structure Settled (content : List UInt8) (c : StreamCursor) : Prop extends
    Remembers content c, Shows content c

theorem Settled.of_shows (remembers : Remembers content c) (shown : Shows content c) :
    Settled content c :=
  ⟨remembers, shown.settled⟩

theorem Settled.of_settle (remembers : Remembers content c) : Settled content c.settle := by
  rw [settle_eq]
  exact .of_shows (remembers.ensure 0) (Shows.of_ensure remembers.toReflects)

theorem settled_fillTo_of_fresh (reflects : Reflects content c) (seeks : c.reader.canSeek = true)
    (least : leastCapacity ≤ c.capacity) (fresh : c.history = []) :
    Settled content (c.fillTo 1) := by
  have fits : 1 ≤ c.capacity := Nat.le_trans (by decide) least
  have shown := Shows.of_fillTo reflects fits (by simp [fresh])
  refine .of_shows ⟨shown.toReflects, ?_, ?_, ?_, ?_⟩ shown
  · rw [canSeek_fillTo, seeks]
  · rwa [capacity_fillTo]
  · simp [fresh]
  · simp [fresh]

theorem settled_ofReader {reader : Reader} (calm : reader.Faultless)
    (seeks : reader.canSeek = true) (capacity : Nat) (sentinel : UInt8) :
    Settled reader.content (ofReader reader capacity sentinel) := by
  unfold ofReader
  simp only [calm.canTell]
  apply settled_fillTo_of_fresh
  · exact ⟨calm, rfl, rfl, List.nil_prefix, by simp⟩
  · exact seeks
  · exact Nat.le_max_right _ _
  · rfl

theorem position_ofReader {reader : Reader} (calm : reader.Faultless) (capacity : Nat)
    (sentinel : UInt8) : (ofReader reader capacity sentinel).position = reader.start := by
  simp only [ofReader, position_fillTo, calm.canTell, if_true]

theorem sentinel_ofReader (reader : Reader) (capacity : Nat) (sentinel : UInt8) :
    (ofReader reader capacity sentinel).sentinel = sentinel := by
  simp only [ofReader, sentinel_fillTo]

theorem Settled.consume (settled : Settled content c) (count : Nat) :
    Settled content (c.consume count) ∧
      (c.consume count).position = c.position + min count c.unread.length := by
  refine ⟨Settled.of_settle (settled.toRemembers.skip count), ?_⟩
  rw [StreamCursor.consume, position_settle, position_skip]

theorem Settled.fillWindow (settled : Settled content c) : Settled content c.fillWindow := by
  have shown := settled.toShows.fillWindow settled.least
  refine .of_shows ?_ shown
  unfold StreamCursor.fillWindow at shown ⊢
  split
  · exact settled.toRemembers
  next going =>
    rw [if_neg going] at shown
    refine settled.toRemembers.of_prefix shown.toReflects (canSeek_fillTo _ _)
      (Nat.le_of_eq (capacity_fillTo _ c.slide).symm) (position_fillTo _ _) ?_
    rw [history_fillTo]
    exact List.take_prefix _ _

/-- Every place of the source can be gone to, inside the window or by a seek. -/
theorem Settled.goTo (settled : Settled content c) (place : Nat) :
    Settled content (c.goTo place) ∧ (c.goTo place).position = place := by
  unfold StreamCursor.goTo
  split
  next back =>
    have inside : c.position - place ≤ c.history.length := by omega
    obtain ⟨there, moved⟩ := settled.toRemembers.unskip (Nat.sub_le c.position place) inside
    refine ⟨Settled.of_settle there, ?_⟩
    rw [position_settle, moved]
    omega
  next =>
    split
    next forward =>
      refine ⟨Settled.of_settle (settled.toRemembers.skip _), ?_⟩
      rw [position_settle, position_skip]
      omega
    next =>
      rw [if_pos settled.seeks]
      refine ⟨settled_fillTo_of_fresh ?_ settled.seeks settled.least rfl, position_fillTo _ _⟩
      exact ⟨settled.calm, settled.source, settled.noFault, List.nil_prefix, by simp⟩

/-! ### The cursor over the text -/

def overText (content : List UInt8) (c : StreamCursor) : TextCursor :=
  ⟨content.drop c.position, c.position, c.sentinel⟩

theorem Shows.head?_eq (shown : Shows content c) :
    c.unread.head? = (content.drop c.position).head? := by
  obtain ⟨more, whole⟩ := shown.fetched
  cases shape : c.unread with
  | nil => rw [shown.settled shape]
  | cons b rest => rw [← whole, shape, List.cons_append, List.head?_cons, List.head?_cons]

theorem Shows.atEnd_eq (shown : Shows content c) :
    Cursor.atEnd c = Cursor.atEnd (c.overText content) := by
  change c.unread.isEmpty = (content.drop c.position).isEmpty
  rw [Bool.eq_iff_iff, List.isEmpty_iff, List.isEmpty_iff, ← List.head?_eq_none_iff,
    ← List.head?_eq_none_iff, shown.head?_eq]

theorem Shows.current_eq (shown : Shows content c) :
    Cursor.current c = Cursor.current (c.overText content) := by
  change c.unread.headD c.sentinel = (content.drop c.position).headD c.sentinel
  rw [List.headD_eq_head?_getD, List.headD_eq_head?_getD, shown.head?_eq]

theorem Reflects.fst_peek (reflects : Reflects content c) (ahead : Nat) :
    (Cursor.peek ahead c).1 = (Cursor.peek ahead (c.overText content)).1 := by
  obtain ⟨after, there⟩ := reflects.ensure ahead
  obtain ⟨more, whole⟩ := after.fetched
  rw [position_ensure] at whole
  change (if (c.ensure ahead).1 then
      ((c.ensure ahead).2.unread.drop ahead).headD (c.ensure ahead).2.sentinel
    else (c.ensure ahead).2.sentinel) = ((content.drop c.position)[ahead]?).getD c.sentinel
  rw [fst_ensure, sentinel_ensure, ← List.head?_drop]
  cases shape : (c.ensure ahead).2.unread.drop ahead with
  | nil =>
    rw [List.drop_drop, there shape]
    rfl
  | cons b rest =>
    have inside : ahead ≤ (c.ensure ahead).2.unread.length := by
      have long := congrArg List.length shape
      simp only [List.length_drop, List.length_cons] at long
      omega
    rw [← whole, List.drop_append_of_le_length inside, shape]
    rfl

theorem overText_peek (ahead : Nat) (c : StreamCursor) :
    (Cursor.peek ahead c).2.overText content = (Cursor.peek ahead (c.overText content)).2 := by
  change (c.ensure ahead).2.overText content = c.overText content
  simp only [overText, position_ensure, sentinel_ensure]

theorem Shows.overText_advance (shown : Shows content c) :
    (Cursor.advance c).2.overText content = (Cursor.advance (c.overText content)).2 := by
  change ((c.skip 1).ensure 0).2.overText content = (Cursor.advance (c.overText content)).2
  simp only [overText, position_ensure, sentinel_ensure, position_skip]
  cases shape : c.unread with
  | nil =>
    rw [List.length_nil, Nat.min_zero, Nat.add_zero, shown.settled shape]
    rfl
  | cons b rest =>
    obtain ⟨more, whole⟩ := shown.fetched
    rw [shape, List.cons_append] at whole
    rw [List.length_cons, Nat.min_eq_left (by omega), ← List.drop_drop, ← whole]
    rfl

end ProfileTrace.StreamCursor
