import ProfileTrace.Proofs.Cursor.Fetching
import ProfileTrace.Proofs.Record.Scan
import ProfileTrace.Record.Boundary

/-! A cursor over a source that never fails. Its window holds the next bytes of the source,
and it moves as a cursor over the whole text would. -/

namespace ProfileTrace.StreamCursor

structure Holds (content : List UInt8) (capacity : Nat) (c : StreamCursor) : Prop where
  calm : c.reader.Faultless
  source : c.reader.content = content
  noFault : c.fault = none
  sentinel : c.sentinel = 0
  fetched : c.unread <+: content.drop c.position
  all : c.ended = true → c.unread = content.drop c.position
  size : c.capacity = capacity
  least : leastCapacity ≤ capacity

structure Stands (content : List UInt8) (capacity : Nat) (c : StreamCursor) : Prop extends
    Holds content capacity c where
  settled : c.unread = [] → content.drop c.position = []

variable {content : List UInt8} {capacity : Nat} {c : StreamCursor}

theorem Holds.reflects (holds : Holds content capacity c) : Reflects content c :=
  ⟨holds.calm, holds.source, holds.noFault, holds.fetched, holds.all⟩

theorem Holds.of_reflects (holds : Holds content capacity c) {after : StreamCursor}
    (reflects : Reflects content after) (sentinel : after.sentinel = c.sentinel)
    (size : after.capacity = c.capacity) : Holds content capacity after :=
  ⟨reflects.calm, reflects.source, reflects.noFault, sentinel.trans holds.sentinel,
    reflects.fetched, reflects.all, size.trans holds.size, holds.least⟩

theorem stands_ofReader {reader : Reader} (calm : reader.Faultless) (capacity : Nat) :
    Stands reader.content (max capacity leastCapacity) (ofReader reader capacity) := by
  unfold ofReader
  simp only [calm.canTell]
  have start : Holds reader.content (max capacity leastCapacity)
      { reader, position := reader.start, capacity := max capacity leastCapacity } :=
    ⟨calm, rfl, rfl, rfl, List.nil_prefix, by simp, rfl, Nat.le_max_right _ _⟩
  have fits : 1 ≤ max capacity leastCapacity :=
    Nat.le_trans (by decide) (Nat.le_max_right capacity leastCapacity)
  have shown := Shows.of_fillTo start.reflects fits Nat.zero_lt_one
  exact ⟨start.of_reflects shown.toReflects (sentinel_fillTo _ _) (capacity_fillTo _ _),
    shown.settled⟩

theorem Holds.ensure (holds : Holds content capacity c) {ahead : Nat} (near : ahead ≤ 1) :
    Holds content capacity (c.ensure ahead).2 := by
  have small : historyLength + ahead + 1 ≤ c.capacity := by
    have least := holds.least
    have wide : historyLength + 2 ≤ leastCapacity := by decide
    have size := holds.size
    omega
  exact holds.of_reflects (holds.reflects.ensure ahead).1 (sentinel_ensure ahead c)
    (capacity_ensure small)

theorem Stands.of_ensure (holds : Holds content capacity c) :
    Stands content capacity (c.ensure 0).2 :=
  ⟨holds.ensure (Nat.zero_le 1), (Shows.of_ensure holds.reflects).settled⟩

theorem Holds.skip (holds : Holds content capacity c) (count : Nat) :
    Holds content capacity (c.skip count) :=
  holds.of_reflects (holds.reflects.skip count) rfl rfl

theorem Holds.consume (holds : Holds content capacity c) {count : Nat}
    (inside : count ≤ c.unread.length) :
    Stands content capacity (c.consume count) ∧ (c.consume count).position = c.position + count := by
  refine ⟨?_, ?_⟩
  · rw [StreamCursor.consume, settle_eq]
    exact Stands.of_ensure (holds.skip count)
  · rw [StreamCursor.consume, position_settle, position_skip, Nat.min_eq_left inside]

theorem Stands.shows (stands : Stands content capacity c) : Shows content c :=
  ⟨stands.reflects, stands.settled⟩

theorem Stands.fillWindow (stands : Stands content capacity c) :
    Stands content capacity c.fillWindow ∧
      (c.fillWindow.ended = false → capacity - historyLength ≤ c.fillWindow.unread.length) := by
  have shown := stands.shows.fillWindow (stands.size ▸ stands.least)
  unfold StreamCursor.fillWindow at shown ⊢
  split
  next ended => exact ⟨stands, by simp [ended]⟩
  next going =>
    rw [if_neg going] at shown
    refine ⟨⟨stands.toHolds.of_reflects shown.toReflects (sentinel_fillTo _ _)
      (capacity_fillTo _ c.slide), shown.settled⟩, ?_⟩
    intro more
    have passed : c.slide.history.length ≤ historyLength := List.length_take_le _ _
    have enough := (stands.reflects.slide.fillTo (Nat.le_refl c.capacity)).2 more
    rw [stands.size] at enough ⊢
    simp only [StreamCursor.held, history_fillTo] at enough
    omega

/-! ### The cursor over the text -/

open Cursor

def text (content : List UInt8) (c : StreamCursor) : TextCursor :=
  ⟨content.drop c.position, c.position, 0⟩

theorem Stands.overText_eq (stands : Stands content capacity c) :
    c.overText content = text content c := by
  rw [overText, stands.sentinel, text]

theorem Stands.head_eq (stands : Stands content capacity c) :
    c.unread.head? = (content.drop c.position).head? :=
  stands.shows.head?_eq

theorem Stands.atEnd_eq (stands : Stands content capacity c) :
    Cursor.atEnd c = Cursor.atEnd (text content c) :=
  stands.shows.atEnd_eq

theorem Stands.current_eq (stands : Stands content capacity c) :
    Cursor.current c = Cursor.current (text content c) :=
  stands.overText_eq ▸ stands.shows.current_eq

theorem Stands.peek (stands : Stands content capacity c) :
    Stands content capacity (Cursor.peek 1 c).2 ∧ (Cursor.peek 1 c).2.position = c.position ∧
      (Cursor.peek 1 c).1 = (Cursor.peek 1 (text content c)).1 := by
  have place : (c.ensure 1).2.position = c.position := position_ensure 1 c
  refine ⟨⟨stands.toHolds.ensure (Nat.le_refl 1), ?_⟩, place, ?_⟩
  · intro none
    have nothing : c.unread = [] := List.prefix_nil.mp (none ▸ unread_fetched_ensure 1 c)
    change content.drop (c.ensure 1).2.position = []
    rw [place]
    exact stands.settled nothing
  · exact stands.overText_eq ▸ stands.reflects.fst_peek 1

theorem Stands.atRecordEnd (stands : Stands content capacity c) :
    Stands content capacity (atRecordEnd c).2 ∧ (atRecordEnd c).2.position = c.position ∧
      (atRecordEnd c).1 = (atRecordEnd (text content c)).1 := by
  have peeked := stands.peek
  have zero : Cursor.sentinel (Cursor.peek 1 c).2 = 0 := peeked.1.sentinel
  unfold ProfileTrace.atRecordEnd
  rw [stands.atEnd_eq, stands.current_eq]
  split
  · exact ⟨stands, rfl, rfl⟩
  · split
    · refine ⟨peeked.1, peeked.2.1, ?_⟩
      simp only [zero, peeked.2.2]
      rfl
    · exact ⟨stands, rfl, rfl⟩

theorem Stands.advance (stands : Stands content capacity c) :
    Stands content capacity (Cursor.advance c).2 ∧
      text content (Cursor.advance c).2 = (Cursor.advance (text content c)).2 := by
  have there : Stands content capacity (Cursor.advance c).2 :=
    Stands.of_ensure (stands.toHolds.skip 1)
  refine ⟨there, ?_⟩
  rw [← there.overText_eq, ← stands.overText_eq, stands.shows.overText_advance]

theorem snd_atRecordEnd_text (t : TextCursor) : (ProfileTrace.atRecordEnd t).2 = t := by
  unfold ProfileTrace.atRecordEnd
  split
  · rfl
  · split <;> rfl

theorem Stands.skipToRecordEnd (stands : Stands content capacity c) :
    Stands content capacity (skipToRecordEnd c) ∧
      text content (skipToRecordEnd c) = skipToRecordEnd (text content c) := by
  fun_induction ProfileTrace.skipToRecordEnd c with
  | case1 c ended =>
    obtain ⟨here, place, same⟩ := stands.atRecordEnd
    refine ⟨here, ?_⟩
    rw [ProfileTrace.skipToRecordEnd, dif_pos (same ▸ ended), snd_atRecordEnd_text, text, place]
    rfl
  | case2 c inside ih =>
    obtain ⟨here, place, same⟩ := stands.atRecordEnd
    obtain ⟨next, moved⟩ := here.advance
    obtain ⟨there, reached⟩ := ih next
    refine ⟨there, ?_⟩
    have still : text content (ProfileTrace.atRecordEnd c).2 = text content c := by
      rw [text, place]
      rfl
    rw [reached, moved, still]
    conv => rhs; rw [ProfileTrace.skipToRecordEnd, dif_neg (same ▸ inside), snd_atRecordEnd_text]

end ProfileTrace.StreamCursor
