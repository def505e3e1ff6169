import ProfileTrace.Proofs.Cursor.Capacity
import ProfileTrace.Proofs.Cursor.Failing
import ProfileTrace.Proofs.Cursor.Window

/-! Two cursors that go forward in lockstep. They are asked for their windows and moved past
bytes of them, never back. A source that fails and one that ends where the other fails keep
their cursors abreast in this way, and so do two sources that deliver the same bytes at
different speeds, although the windows of these hold different parts of the text in between. -/

namespace ProfileTrace

namespace StreamCursor

/-- Cursors that are abreast show the same and have the same windows, and stay abreast when both
go forward. -/
structure Lockstep (Abreast : StreamCursor → StreamCursor → Prop) : Prop where
  atEnd_eq : ∀ {c d}, Abreast c d → c.atEnd = d.atEnd
  current_eq : ∀ {c d}, Abreast c d → c.current = d.current
  sentinel_eq : ∀ {c d}, Abreast c d → c.sentinel = d.sentinel
  advance : ∀ {c d}, Abreast c d → Abreast (Cursor.advance c).2 (Cursor.advance d).2
  fst_peek : ∀ {c d}, Abreast c d → (Cursor.peek 1 c).1 = (Cursor.peek 1 d).1
  peek : ∀ {c d}, Abreast c d → Abreast (Cursor.peek 1 c).2 (Cursor.peek 1 d).2
  window : ∀ {c d}, Abreast c d → Abreast c.fillWindow d.fillWindow ∧
    c.fillWindow.unread = d.fillWindow.unread ∧ c.fillWindow.ended = d.fillWindow.ended
  consume : ∀ {c d}, Abreast c d → c.unread = d.unread → ∀ count,
    Abreast (c.consume count) (d.consume count)

structure Enduring (Holds : StreamCursor → Prop) : Prop where
  advance : ∀ {c}, Holds c → Holds (Cursor.advance c).2
  peek : ∀ {c}, Holds c → Holds (Cursor.peek 1 c).2
  fillWindow : ∀ {c}, Holds c → Holds c.fillWindow
  consume : ∀ {c}, Holds c → ∀ count, Holds (c.consume count)

theorem Enduring.lockstep {Holds : StreamCursor → Prop} (enduring : Enduring Holds) :
    Lockstep fun c d => c = d ∧ Holds c where
  atEnd_eq := fun ⟨same, _⟩ => congrArg atEnd same
  current_eq := fun ⟨same, _⟩ => congrArg current same
  sentinel_eq := fun ⟨same, _⟩ => congrArg sentinel same
  advance := fun ⟨same, holds⟩ => ⟨same ▸ rfl, enduring.advance holds⟩
  fst_peek := fun ⟨same, _⟩ => same ▸ rfl
  peek := fun ⟨same, holds⟩ => ⟨same ▸ rfl, enduring.peek holds⟩
  window := fun ⟨same, holds⟩ =>
    ⟨⟨same ▸ rfl, enduring.fillWindow holds⟩, same ▸ rfl, same ▸ rfl⟩
  consume := fun ⟨same, holds⟩ _ count => ⟨same ▸ rfl, enduring.consume holds count⟩

namespace Lockstep
variable {Abreast : StreamCursor → StreamCursor → Prop} {c d : StreamCursor}

theorem atRecordEnd (lockstep : Lockstep Abreast) (abreast : Abreast c d) :
    (atRecordEnd c).1 = (atRecordEnd d).1 ∧ Abreast (atRecordEnd c).2 (atRecordEnd d).2 := by
  have ended : Cursor.atEnd c = Cursor.atEnd d := lockstep.atEnd_eq abreast
  have current : Cursor.current c = Cursor.current d := lockstep.current_eq abreast
  unfold ProfileTrace.atRecordEnd
  rw [ended, current]
  split
  · exact ⟨rfl, abreast⟩
  · split
    · have after := lockstep.peek abreast
      have sentinel : Cursor.sentinel (Cursor.peek 1 c).2 = Cursor.sentinel (Cursor.peek 1 d).2 :=
        lockstep.sentinel_eq after
      refine ⟨?_, after⟩
      simp only [lockstep.fst_peek abreast, sentinel]
    · exact ⟨rfl, abreast⟩

theorem skipToRecordEnd (lockstep : Lockstep Abreast) (abreast : Abreast c d) :
    Abreast (skipToRecordEnd c) (skipToRecordEnd d) := by
  obtain ⟨same, after⟩ := lockstep.atRecordEnd abreast
  fun_induction ProfileTrace.skipToRecordEnd c generalizing d with
  | case1 c ends =>
    rw [skipToRecordEnd.eq_def d, dif_pos (same ▸ ends)]
    exact after
  | case2 c inside ih =>
    rw [skipToRecordEnd.eq_def d, dif_neg (same ▸ inside)]
    have next := lockstep.advance after
    obtain ⟨same, after⟩ := lockstep.atRecordEnd next
    exact ih next same after

end Lockstep

/-! ### Room for more than the history -/

def Roomy (c : StreamCursor) : Prop := leastCapacity ≤ c.capacity

theorem roomy_ofReader (reader : Reader) (capacity : Nat) (sentinel : UInt8) :
    Roomy (ofReader reader capacity sentinel) := by
  unfold Roomy ofReader
  rw [capacity_fillTo]
  exact Nat.le_max_right _ _

theorem Roomy.ensure {c : StreamCursor} (roomy : c.Roomy) (ahead : Nat) :
    (c.ensure ahead).2.Roomy :=
  Nat.le_trans roomy (capacity_le_ensure ahead c)

theorem enduring_roomy : Enduring Roomy where
  advance := fun roomy => Roomy.ensure (c := StreamCursor.skip 1 _) roomy 0
  peek := fun roomy => roomy.ensure 1
  fillWindow := by
    intro c roomy
    unfold Roomy fillWindow at *
    split
    · exact roomy
    · rwa [capacity_fillTo]
  consume := by
    intro c roomy count
    rw [consume, settle_eq]
    exact Roomy.ensure (c := c.skip count) roomy 0

theorem ended_fillTo {c : StreamCursor} (going : c.ended = false) (needed : Nat) :
    (c.fillTo needed).ended = decide ((c.fillTo needed).held < needed) := by
  unfold fillTo
  rw [if_neg (by simp [going])]
  have ended := c.reader.ended_gather (c.position + c.unread.length) (needed - c.held)
    (c.capacity - c.held)
  refine ended.trans (decide_eq_decide.mpr ?_)
  simp only [held, List.length_append]
  omega

theorem ended_ensure (ahead : Nat) (c : StreamCursor) :
    (c.ensure ahead).2.ended = (c.ended || ((c.ensure ahead).2.unread.drop ahead).isEmpty) := by
  by_cases missing : c.unread.drop ahead = []
  · cases going : c.ended with
    | true => rw [ensure_of_ended going, going, Bool.true_or]
    | false =>
      rw [ensure_of_missing missing going, Bool.false_or, ended_fillTo (c := c.widened ahead) going,
        Bool.eq_iff_iff, decide_eq_true_eq, List.isEmpty_iff, List.drop_eq_nil_iff]
      simp only [held, history_fillTo, widened]
      omega
  · have some : (c.unread.drop ahead).isEmpty = false := by simpa using missing
    rw [ensure_of_available missing, some, Bool.or_false]

theorem Roomy.ended_of_nil {c : StreamCursor} (roomy : c.Roomy) (none : c.fillWindow.unread = []) :
    c.fillWindow.ended = true := by
  unfold fillWindow at none ⊢
  split
  next ended => exact ended
  next going =>
    rw [if_neg going] at none
    have kept : c.slide.history.length ≤ historyLength := List.length_take_le _ _
    have small : historyLength < leastCapacity := by decide
    have least : leastCapacity ≤ c.capacity := roomy
    have fresh : c.slide.ended = false := Bool.eq_false_iff.mpr going
    rw [ended_fillTo fresh, decide_eq_true_eq]
    simp only [held, history_fillTo, none, List.length_nil]
    omega

theorem unread_fetched_fillWindow (c : StreamCursor) : c.unread <+: c.fillWindow.unread := by
  unfold fillWindow
  split
  · exact List.prefix_refl _
  · exact unread_fetched_fillTo c.capacity c.slide

/-! ### A source that fails -/

theorem enduring_warned {source : Reader} (calm : source.calmed.Faultless) :
    Enduring fun c => Warned source c ∧ c.Roomy where
  advance := fun ⟨warned, roomy⟩ => ⟨warned.advance calm, enduring_roomy.advance roomy⟩
  peek := fun ⟨warned, roomy⟩ => ⟨warned.peek calm 1, enduring_roomy.peek roomy⟩
  fillWindow := by
    intro c ⟨warned, roomy⟩
    refine ⟨?_, enduring_roomy.fillWindow roomy⟩
    unfold fillWindow
    split
    · exact warned
    · have slid : Watches source c.slide :=
        ⟨warned.same, warned.room, warned.inside, warned.quiet, warned.told⟩
      have passed : c.slide.history.length ≤ historyLength := List.length_take_le _ _
      have small : historyLength < leastCapacity := by decide
      exact slid.warned_fillTo calm (Nat.le_refl c.capacity)
        (Nat.lt_of_le_of_lt passed (Nat.lt_of_lt_of_le small roomy))
  consume := fun ⟨warned, roomy⟩ count =>
    ⟨(warned.toWatches.skip count).warned_settle calm, enduring_roomy.consume roomy count⟩

structure Lost (c : StreamCursor) : Prop where
  ended : c.ended = true
  nothing : c.unread = []
  fault : c.fault = some .tellFailed

theorem lost_ofReader {reader : Reader} (silent : reader.canTell = false) (capacity : Nat)
    (sentinel : UInt8) : Lost (ofReader reader capacity sentinel) := by
  unfold ofReader fillTo
  simp only [silent, Bool.not_false, if_true]
  exact ⟨rfl, rfl, rfl⟩

theorem Lost.skip {c : StreamCursor} (lost : c.Lost) (count : Nat) : (c.skip count).Lost :=
  ⟨lost.ended, by simp [StreamCursor.skip, lost.nothing], lost.fault⟩

theorem Lost.ensure {c : StreamCursor} (lost : c.Lost) (ahead : Nat) : (c.ensure ahead).2.Lost := by
  rwa [ensure_of_ended lost.ended]

theorem enduring_lost : Enduring Lost where
  advance := fun lost => (lost.skip 1).ensure 0
  peek := fun lost => lost.ensure 1
  fillWindow := by
    intro c lost
    rwa [fillWindow, if_pos lost.ended]
  consume := by
    intro c lost count
    rw [consume, settle_eq]
    exact (lost.skip count).ensure 0

theorem Mirrors.fillWindow {c d : StreamCursor} (mirrors : Mirrors c d) :
    Mirrors c.fillWindow d.fillWindow := by
  unfold StreamCursor.fillWindow
  rw [mirrors.ended]
  split
  · exact mirrors
  · obtain ⟨reader, position, history, unread, capacity, ended, sentinel⟩ := mirrors
    have slid : Mirrors c.slide d.slide :=
      ⟨reader, position, congrArg (List.take historyLength) history, unread, capacity, ended, sentinel⟩
    rw [capacity]
    exact slid.fillTo c.capacity

/-- A cursor keeps abreast of the one that only has the bytes that its source can deliver. -/
theorem lockstep_mirrors : Lockstep Mirrors where
  atEnd_eq := fun mirrors => congrArg List.isEmpty mirrors.unread.symm
  current_eq := by
    intro c d mirrors
    rw [current, current, mirrors.unread, mirrors.sentinel]
  sentinel_eq := fun mirrors => mirrors.sentinel.symm
  advance := fun mirrors => (mirrors.skip 1).ensure 0
  fst_peek := fun mirrors => mirrors.fst_peek 1
  peek := fun mirrors => mirrors.ensure 1
  window := fun mirrors =>
    ⟨mirrors.fillWindow, mirrors.fillWindow.unread.symm, mirrors.fillWindow.ended.symm⟩
  consume := fun mirrors _ count => (mirrors.skip count).settle

/-! ### A source that never fails -/

theorem enduring_stands (content : List UInt8) (capacity : Nat) :
    Enduring (Stands content capacity) where
  advance := fun stands => stands.advance.1
  peek := fun stands => stands.peek.1
  fillWindow := fun stands => stands.fillWindow.1
  consume := by
    intro c stands count
    rw [consume, settle_eq]
    exact Stands.of_ensure (stands.toHolds.skip count)

/-! ### Sources that deliver the same at different speeds -/

def kept (c : StreamCursor) : List UInt8 := c.history.take historyLength

/-- Both cursors are at the same place of the same text, keep the same history, and have both
seen the end of it or both not. -/
structure Level (content : List UInt8) (capacity : Nat) (c d : StreamCursor) : Prop where
  holds : Holds content capacity c
  other : Holds content capacity d
  fits : c.Fits
  otherFits : d.Fits
  position : c.position = d.position
  kept : c.kept = d.kept
  ended : c.ended = d.ended

structure Abreast (content : List UInt8) (capacity : Nat) (c d : StreamCursor) : Prop extends
    Level content capacity c d where
  stands : Stands content capacity c
  otherStands : Stands content capacity d

variable {content : List UInt8} {capacity : Nat} {c d : StreamCursor}

theorem kept_ensure (ahead : Nat) (c : StreamCursor) : (c.ensure ahead).2.kept = c.kept := by
  rcases ensure_cases ahead c with ⟨same, -⟩ | filling
  · rw [same]
  · rw [filling, kept, history_fillTo]
    exact (List.take_take ..).trans (by rw [Nat.min_self]; rfl)

theorem kept_skip (count : Nat) (c : StreamCursor) :
    (c.skip count).kept = ((c.unread.take count).reverse ++ c.kept).take historyLength := by
  simp only [kept, skip, List.take_append, List.take_take]
  congr 2
  omega

theorem kept_fillWindow (c : StreamCursor) : c.fillWindow.kept = c.kept := by
  unfold fillWindow
  split
  · rfl
  · rw [kept, history_fillTo]
    exact (List.take_take ..).trans (by rw [Nat.min_self]; rfl)

theorem history_ofReader (reader : Reader) (capacity : Nat) (sentinel : UInt8) :
    (ofReader reader capacity sentinel).history = [] := by
  rw [ofReader, history_fillTo]

theorem ended_ofReader {reader : Reader} (calm : reader.Faultless) (capacity : Nat)
    (sentinel : UInt8) : (ofReader reader capacity sentinel).ended =
      (ofReader reader capacity sentinel).unread.isEmpty := by
  have history := history_ofReader reader capacity sentinel
  unfold ofReader at history ⊢
  simp only [calm.canTell] at history ⊢
  rw [ended_fillTo (by rfl), Bool.eq_iff_iff, decide_eq_true_eq, List.isEmpty_iff, held, history,
    ← List.length_eq_zero_iff]
  simp

theorem Reflects.isEmpty_ensure (reflects : Reflects content c) (ahead : Nat) :
    ((c.ensure ahead).2.unread.drop ahead).isEmpty =
      (content.drop (c.position + ahead)).isEmpty := by
  obtain ⟨after, there⟩ := reflects.ensure ahead
  have part := after.fetched
  rw [position_ensure] at part
  rw [Bool.eq_iff_iff, List.isEmpty_iff, List.isEmpty_iff]
  refine ⟨there, ?_⟩
  intro none
  rw [← List.drop_drop, List.drop_eq_nil_iff] at none
  exact List.drop_eq_nil_of_le (Nat.le_trans part.length_le none)

theorem Level.ensure (level : Level content capacity c d) {ahead : Nat} (near : ahead ≤ 1) :
    Level content capacity (c.ensure ahead).2 (d.ensure ahead).2 where
  holds := level.holds.ensure near
  other := level.other.ensure near
  fits := level.fits.ensure ahead
  otherFits := level.otherFits.ensure ahead
  position := by rw [position_ensure, position_ensure, level.position]
  kept := by rw [kept_ensure, kept_ensure, level.kept]
  ended := by
    rw [ended_ensure, ended_ensure, level.holds.reflects.isEmpty_ensure,
      level.other.reflects.isEmpty_ensure, level.position, level.ended]

theorem Level.skip (level : Level content capacity c d) {count : Nat}
    (same : c.unread.take count = d.unread.take count) :
    Level content capacity (c.skip count) (d.skip count) where
  holds := level.holds.skip count
  other := level.other.skip count
  fits := level.fits.skip count
  otherFits := level.otherFits.skip count
  position := by
    change c.position + (c.unread.take count).length = d.position + (d.unread.take count).length
    rw [level.position, same]
  kept := by rw [kept_skip, kept_skip, same, level.kept]
  ended := level.ended

theorem Level.abreast (level : Level content capacity c d) :
    Abreast content capacity (c.ensure 0).2 (d.ensure 0).2 :=
  ⟨level.ensure (Nat.zero_le 1), Stands.of_ensure level.holds, Stands.of_ensure level.other⟩

theorem Stands.window_eq (stands : Stands content capacity c) (fits : c.Fits)
    (going : c.ended = false) :
    c.fillWindow.unread = (content.drop c.position).take (capacity - c.kept.length) ∧
      c.fillWindow.ended =
        decide ((content.drop c.position).length < capacity - c.kept.length) := by
  have ended := ended_fillTo (c := c.slide) going c.capacity
  have room := fits.slide.fillTo c.capacity
  obtain ⟨filled, -⟩ := stands.fillWindow
  have shape : c.fillWindow = c.slide.fillTo c.capacity := if_neg (by simp [going])
  have slid : c.slide.history = c.kept := rfl
  rw [← shape] at ended room
  have history : c.fillWindow.history = c.kept := by rw [shape, history_fillTo, slid]
  have size : c.fillWindow.capacity = capacity := filled.size
  have place := position_fillWindow c
  rw [Fits, held, history, size] at room
  rw [held, history, stands.size] at ended
  have part := filled.fetched
  have all := filled.all
  rw [place] at part all
  have whole := List.prefix_iff_eq_take.mp part
  have inside := part.length_le
  by_cases short : c.kept.length + c.fillWindow.unread.length < capacity
  · rw [decide_eq_true short] at ended
    rw [all ended] at short room
    refine ⟨?_, ?_⟩
    · rw [all ended, List.take_of_length_le (by omega)]
    · rw [ended, decide_eq_true (by omega)]
  · rw [decide_eq_false short] at ended
    refine ⟨?_, ?_⟩
    · rw [whole]
      congr 1
      omega
    · rw [ended, decide_eq_false (by omega)]

theorem Abreast.head?_eq (abreast : Abreast content capacity c d) :
    c.unread.head? = d.unread.head? := by
  rw [abreast.stands.head_eq, abreast.otherStands.head_eq, abreast.position]

theorem Abreast.fillWindow (abreast : Abreast content capacity c d) :
    Abreast content capacity c.fillWindow d.fillWindow ∧
      c.fillWindow.unread = d.fillWindow.unread ∧ c.fillWindow.ended = d.fillWindow.ended := by
  have shown : c.fillWindow.unread = d.fillWindow.unread ∧
      c.fillWindow.ended = d.fillWindow.ended := by
    cases ended : c.ended with
    | true =>
      have also : d.ended = true := abreast.ended.symm.trans ended
      have here : c.fillWindow = c := if_pos ended
      have there : d.fillWindow = d := if_pos also
      rw [here, there, abreast.stands.all ended, abreast.otherStands.all also, abreast.position]
      exact ⟨rfl, abreast.ended⟩
    | false =>
      have also : d.ended = false := abreast.ended.symm.trans ended
      obtain ⟨unread, reached⟩ := abreast.stands.window_eq abreast.fits ended
      obtain ⟨unread', reached'⟩ := abreast.otherStands.window_eq abreast.otherFits also
      rw [unread, unread', reached, reached', abreast.position, abreast.kept]
      exact ⟨rfl, rfl⟩
  obtain ⟨filled, -⟩ := abreast.stands.fillWindow
  obtain ⟨filled', -⟩ := abreast.otherStands.fillWindow
  refine ⟨⟨⟨filled.toHolds, filled'.toHolds, abreast.fits.fillWindow, abreast.otherFits.fillWindow,
    ?_, ?_, shown.2⟩, filled, filled'⟩, shown⟩
  · rw [position_fillWindow, position_fillWindow, abreast.position]
  · rw [kept_fillWindow, kept_fillWindow, abreast.kept]

/-- However fast two sources deliver the same bytes, their cursors keep abreast. -/
theorem lockstep_abreast (content : List UInt8) (capacity : Nat) :
    Lockstep (Abreast content capacity) where
  atEnd_eq := by
    intro c d abreast
    have same := abreast.head?_eq
    unfold StreamCursor.atEnd
    rw [Bool.eq_iff_iff, List.isEmpty_iff, List.isEmpty_iff, ← List.head?_eq_none_iff,
      ← List.head?_eq_none_iff, same]
  current_eq := by
    intro c d abreast
    rw [current, current, List.headD_eq_head?_getD, List.headD_eq_head?_getD, abreast.head?_eq,
      abreast.holds.sentinel, abreast.other.sentinel]
  sentinel_eq := fun abreast => abreast.holds.sentinel.trans abreast.other.sentinel.symm
  advance := by
    intro c d abreast
    have one : c.unread.take 1 = d.unread.take 1 := by
      rw [List.take_one, List.take_one, abreast.head?_eq]
    exact (abreast.skip one).abreast
  fst_peek := by
    intro c d abreast
    obtain ⟨-, -, same⟩ := abreast.stands.peek
    obtain ⟨-, -, also⟩ := abreast.otherStands.peek
    rw [same, also, text, text, abreast.position]
  peek := fun abreast =>
    ⟨abreast.toLevel.ensure (Nat.le_refl 1), abreast.stands.peek.1, abreast.otherStands.peek.1⟩
  window := Abreast.fillWindow
  consume := by
    intro c d abreast same count
    have level := abreast.skip (congrArg (List.take count) same)
    rw [consume, consume, settle_eq, settle_eq]
    exact level.abreast

theorem abreast_ofReader {reader other : Reader} (calm : reader.Faultless)
    (otherCalm : other.Faultless) (content : reader.content = other.content)
    (start : reader.start = other.start) (capacity : Nat) :
    Abreast reader.content (max capacity leastCapacity) (ofReader reader capacity)
      (ofReader other capacity) := by
  have stands := stands_ofReader calm capacity
  have otherStands := stands_ofReader otherCalm capacity
  rw [← content] at otherStands
  have place : (ofReader reader capacity).position = (ofReader other capacity).position := by
    rw [position_ofReader calm, position_ofReader otherCalm, start]
  refine ⟨⟨stands.toHolds, otherStands.toHolds, fits_ofReader _ _ _, fits_ofReader _ _ _, place,
    ?_, ?_⟩, stands, otherStands⟩
  · rw [kept, kept, history_ofReader, history_ofReader]
  · rw [ended_ofReader calm, ended_ofReader otherCalm, Bool.eq_iff_iff, List.isEmpty_iff,
      List.isEmpty_iff, ← List.head?_eq_none_iff, ← List.head?_eq_none_iff, stands.head_eq,
      otherStands.head_eq, place]

end StreamCursor

end ProfileTrace
