import ProfileTrace.Proofs.Cursor.Capacity
import ProfileTrace.Proofs.Cursor.Failing
import ProfileTrace.Proofs.Cursor.Plain
import ProfileTrace.Proofs.Cursor.Window

/-! A cursor over a source that cannot seek. Where a seek fails the cursor is left at the end of its
window, which a fault of the source is to look like for good. It does so only when nothing follows
the window: the source has not ended for the cursor, and the next move fetches what follows. -/

namespace ProfileTrace

def Operation.keepsPlace : Operation → Bool
  | .restore _ => false
  | _ => true

namespace StreamCursor
open Cursor (Simulation)

def performAll (operations : List Operation) (c : StreamCursor) : StreamCursor :=
  operations.foldl (fun c operation => (c.perform operation).2) c

structure Steady (Holds : StreamCursor → Prop) (Allowed : Nat → Prop) : Prop where
  skip : ∀ {c}, Holds c → ∀ count, Holds (c.skip count)
  ensure : ∀ {c}, Holds c → ∀ ahead, Holds (c.ensure ahead).2
  mark : ∀ {c}, Holds c → Allowed c.position
  goTo : ∀ {c}, Holds c → ∀ {place}, Allowed place → Holds (c.goTo place)
  fillWindow : ∀ {c}, Holds c → Holds c.fillWindow

namespace Steady
variable {Holds : StreamCursor → Prop} {Allowed : Nat → Prop} {c : StreamCursor}

def simulation (steady : Steady Holds Allowed) : Simulation StreamCursor StreamCursor where
  Alike c d := c = d ∧ Holds c
  SamePlace (place other : Nat) := place = other ∧ Allowed place
  atEnd_eq := by
    rintro c _ ⟨rfl, -⟩
    rfl
  current_eq := by
    rintro c _ ⟨rfl, -⟩
    rfl
  sentinel_eq := by
    rintro c _ ⟨rfl, -⟩
    rfl
  alike_advance := by
    rintro c _ ⟨rfl, holds⟩
    exact ⟨rfl, steady.ensure (steady.skip holds 1) 0⟩
  fst_peek := by
    rintro ahead c _ ⟨rfl, -⟩
    rfl
  alike_peek := by
    rintro ahead c _ ⟨rfl, holds⟩
    exact ⟨rfl, steady.ensure holds ahead⟩
  samePlace_mark := by
    rintro c _ ⟨rfl, holds⟩
    exact ⟨rfl, steady.mark holds⟩
  alike_restore := by
    rintro place _ c _ ⟨rfl, allowed⟩ ⟨rfl, holds⟩
    exact ⟨rfl, steady.goTo holds allowed⟩

theorem perform (steady : Steady Holds Allowed) (holds : Holds c) {operation : Operation}
    (allowed : ∀ place, operation = .restore place → Allowed place) :
    Holds (c.perform operation).2 := by
  have alike : steady.simulation.Alike c c := ⟨rfl, holds⟩
  cases operation with
  | advance => exact steady.ensure (steady.skip holds 1) 0
  | peek ahead => exact steady.ensure holds ahead
  | mark => exact holds
  | restore place => exact steady.goTo holds (allowed place rfl)
  | skipWhitespace => exact (Simulation.keeps_skipWhile _ Text.isWhitespaceByte alike).2
  | skipSpaces => exact (Simulation.keeps_skipWhile _ Text.isSpaceByte alike).2
  | skipTo target => exact (Simulation.keeps_skipWhile _ (· != target) alike).2
  | skipToOnLine target => exact (Simulation.respects_skipToOnLine _ target alike).2.2
  | readUntil stop => exact (Simulation.respects_readUntil _ stop alike).2.2
  | readUntilLastOnLine target =>
    exact (Simulation.respects_readUntilLastOnLine _ target alike).2.2
  | readInt => exact (Simulation.respects_readInt _ alike).2.2
  | readInt32 => exact (Simulation.respects_readInt32 _ alike).2.2
  | fillWindow => exact steady.fillWindow holds
  | consume count =>
    change Holds (c.skip count).settle
    rw [settle_eq]
    exact steady.ensure (steady.skip holds count) 0

theorem performAll (steady : Steady Holds Allowed) (holds : Holds c) {operations : List Operation}
    (allowed : ∀ place, .restore place ∈ operations → Allowed place) :
    Holds (c.performAll operations) := by
  induction operations generalizing c with
  | nil => exact holds
  | cons operation operations ih =>
    apply ih (steady.perform holds fun place same => allowed place (same ▸ List.mem_cons_self))
    exact fun place among => allowed place (List.mem_cons_of_mem _ among)

end Steady

variable {reader : Reader} {content : List UInt8} {place : Nat} {sentinel : UInt8}
  {c : StreamCursor}

/-! ### What a cursor knows of the end -/

def edge (c : StreamCursor) : Nat := c.position + c.unread.length

/-- The cursor takes the source for ended only when nothing follows its window. -/
structure Knows (content : List UInt8) (sentinel : UInt8) (c : StreamCursor) : Prop where
  calm : c.reader.Faultless
  blind : c.reader.canSeek = false
  source : c.reader.content = content
  sentinel : c.sentinel = sentinel
  told : c.ended = true → content.length ≤ c.edge

theorem edge_skip (count : Nat) (c : StreamCursor) : (c.skip count).edge = c.edge := by
  simp only [edge, skip, List.length_take, List.length_drop]
  omega

theorem edge_unskip {count : Nat} (bound : count ≤ c.position) :
    (c.unskip count bound).edge = c.edge := by
  simp only [edge, unskip, List.length_append, List.length_reverse, List.length_take]
  omega

namespace Knows

theorem fillTo (knows : Knows content sentinel c) {needed : Nat} (fits : needed ≤ c.capacity) :
    Knows content sentinel (c.fillTo needed) := by
  unfold StreamCursor.fillTo
  split
  · exact knows
  · have delivery : Reader.Delivers c.reader (c.position + c.unread.length) (needed - c.held)
        (c.reader.gather (c.position + c.unread.length) (needed - c.held)
          (c.capacity - c.held)) :=
      knows.calm.delivers_gather (by omega)
    have bytes := Reader.bytes_gather c.reader (c.position + c.unread.length) (needed - c.held)
      (c.capacity - c.held)
    have blind := Reader.canSeek_gather c.reader (c.position + c.unread.length) (needed - c.held)
      (c.capacity - c.held)
    refine ⟨delivery.calm, blind.trans knows.blind, ?_, knows.sentinel, fun ended => ?_⟩
    · rw [← knows.source]
      exact congrArg (fun bytes => bytes.data.toList) bytes
    · simp only [edge]
      rw [delivery.all ended, knows.source, List.length_append, List.length_drop]
      omega

theorem skip (knows : Knows content sentinel c) (count : Nat) :
    Knows content sentinel (c.skip count) where
  calm := knows.calm
  blind := knows.blind
  source := knows.source
  sentinel := knows.sentinel
  told ended := by
    rw [edge_skip]
    exact knows.told ended

theorem unskip (knows : Knows content sentinel c) {count : Nat} (bound : count ≤ c.position) :
    Knows content sentinel (c.unskip count bound) where
  calm := knows.calm
  blind := knows.blind
  source := knows.source
  sentinel := knows.sentinel
  told ended := by
    rw [edge_unskip]
    exact knows.told ended

theorem ensure (knows : Knows content sentinel c) (ahead : Nat) :
    Knows content sentinel (c.ensure ahead).2 := by
  rcases ensure_cases ahead c with ⟨same, -⟩ | filling
  · rwa [same]
  · have wide : Knows content sentinel (c.widened ahead) :=
      ⟨knows.calm, knows.blind, knows.source, knows.sentinel, knows.told⟩
    rw [filling]
    exact wide.fillTo (Nat.le_max_right _ _)

theorem goTo (knows : Knows content sentinel c) (place : Nat) :
    Knows content sentinel (c.goTo place) := by
  unfold StreamCursor.goTo
  split
  · rw [settle_eq]
    exact (knows.unskip _).ensure 0
  · split
    · rw [settle_eq]
      exact (knows.skip _).ensure 0
    · rw [if_neg (by simp [knows.blind])]
      obtain ⟨calm, blind, source, same, told⟩ := knows.skip c.unread.length
      exact ⟨calm, blind, source, same, told⟩

theorem fillWindow (knows : Knows content sentinel c) : Knows content sentinel c.fillWindow := by
  unfold StreamCursor.fillWindow
  split
  · exact knows
  · have slid : Knows content sentinel c.slide :=
      ⟨knows.calm, knows.blind, knows.source, knows.sentinel, knows.told⟩
    exact slid.fillTo (Nat.le_refl c.capacity)

end Knows

theorem steady_knows (content : List UInt8) (sentinel : UInt8) :
    Steady (Knows content sentinel) fun _ => True where
  skip := Knows.skip
  ensure := Knows.ensure
  mark := fun _ => trivial
  goTo := fun knows place _ => knows.goTo place
  fillWindow := Knows.fillWindow

theorem knows_ofReader (calm : reader.Faultless) (blind : reader.canSeek = false) (capacity : Nat)
    (sentinel : UInt8) : Knows reader.content sentinel (ofReader reader capacity sentinel) := by
  have fresh : Knows reader.content sentinel
      { reader, sentinel, position := reader.start, capacity := max capacity leastCapacity } :=
    ⟨calm, blind, rfl, rfl, by simp⟩
  have fits : 1 ≤ max capacity leastCapacity :=
    Nat.le_trans (by decide) (Nat.le_max_right capacity leastCapacity)
  unfold ofReader
  simp only [calm.canTell]
  exact fresh.fillTo fits

/-! ### A seek that failed -/

/-- The place is not in the window, so that a seek is tried. -/
def IsOutside (place : Nat) (c : StreamCursor) : Prop :=
  ¬(c.position - c.history.length ≤ place ∧ place ≤ c.position + c.unread.length)

/-- The cursor shows no byte, also if asked to move on, and stands at this place. -/
structure IsEndedAt (place : Nat) (sentinel : UInt8) (c : StreamCursor) : Prop where
  atEnd : c.atEnd = true
  current : c.current = sentinel
  advance : (Cursor.advance c).1 = false
  position : c.position = place

structure Spent (place : Nat) (sentinel : UInt8) (c : StreamCursor) : Prop where
  nothing : c.unread = []
  position : c.position = place
  sentinel : c.sentinel = sentinel
  beyond : c.reader.content.length ≤ place

namespace Spent

theorem fillTo (spent : Spent place sentinel c) (needed : Nat) :
    Spent place sentinel (c.fillTo needed) := by
  unfold StreamCursor.fillTo
  split
  · exact spent
  · obtain ⟨nothing, position, same, beyond⟩ := spent
    have size : c.reader.content.length = c.reader.bytes.size := rfl
    have short := c.reader.length_gather (c.position + c.unread.length) (needed - c.held)
      (c.capacity - c.held)
    have bytes := Reader.bytes_gather c.reader (c.position + c.unread.length) (needed - c.held)
      (c.capacity - c.held)
    refine ⟨?_, position, same, ?_⟩
    · rw [List.append_eq_nil_iff]
      exact ⟨nothing, List.length_eq_zero_iff.mp (by omega)⟩
    · rw [Reader.content, bytes]
      exact beyond

theorem skip (spent : Spent place sentinel c) (count : Nat) :
    Spent place sentinel (c.skip count) := by
  obtain ⟨nothing, position, same, beyond⟩ := spent
  refine ⟨?_, ?_, same, beyond⟩
  · simp only [StreamCursor.skip, nothing, List.drop_nil]
  · simp only [StreamCursor.skip, nothing, List.take_nil, List.length_nil, position, Nat.add_zero]

theorem ensure (spent : Spent place sentinel c) (ahead : Nat) :
    Spent place sentinel (c.ensure ahead).2 := by
  rcases ensure_cases ahead c with ⟨same, -⟩ | filling
  · rwa [same]
  · have wide : Spent place sentinel (c.widened ahead) :=
      ⟨spent.nothing, spent.position, spent.sentinel, spent.beyond⟩
    rw [filling]
    exact wide.fillTo _

theorem goTo (spent : Spent place sentinel c) : Spent place sentinel (c.goTo place) := by
  have here : c.position - c.history.length ≤ place ∧ place ≤ c.position := by
    rw [spent.position]
    exact ⟨Nat.sub_le _ _, Nat.le_refl _⟩
  unfold StreamCursor.goTo
  rw [dif_pos here, settle_eq]
  apply ensure
  refine ⟨?_, ?_, spent.sentinel, spent.beyond⟩
  · simp only [StreamCursor.unskip, spent.position, Nat.sub_self, List.take_zero,
      List.reverse_nil, List.nil_append, spent.nothing]
  · simp only [StreamCursor.unskip, spent.position, Nat.sub_self, List.take_zero,
      List.length_nil, Nat.sub_zero]

theorem fillWindow (spent : Spent place sentinel c) : Spent place sentinel c.fillWindow := by
  unfold StreamCursor.fillWindow
  split
  · exact spent
  · have slid : Spent place sentinel c.slide :=
      ⟨spent.nothing, spent.position, spent.sentinel, spent.beyond⟩
    exact slid.fillTo _

theorem isEndedAt (spent : Spent place sentinel c) : IsEndedAt place sentinel c where
  atEnd := by rw [StreamCursor.atEnd, spent.nothing, List.isEmpty_nil]
  current := by rw [StreamCursor.current, spent.nothing, spent.sentinel, List.headD_nil]
  advance := by
    change ((c.skip 1).ensure 0).1 = false
    rw [fst_ensure, ((spent.skip 1).ensure 0).nothing]
    rfl
  position := spent.position

end Spent

theorem steady_spent (place : Nat) (sentinel : UInt8) :
    Steady (Spent place sentinel) (· = place) where
  skip := Spent.skip
  ensure := Spent.ensure
  mark := Spent.position
  goTo := by
    rintro c spent _ rfl
    exact spent.goTo
  fillWindow := Spent.fillWindow

theorem goTo_of_outside (blind : c.reader.canSeek = false) (outside : IsOutside place c) :
    (c.goTo place).unread = [] ∧ (c.goTo place).position = c.edge := by
  have back : ¬(c.position - c.history.length ≤ place ∧ place ≤ c.position) :=
    fun inside => outside ⟨inside.1, by omega⟩
  have forward : ¬(c.position ≤ place ∧ place ≤ c.position + c.unread.length) :=
    fun inside => outside ⟨by omega, inside.2⟩
  unfold StreamCursor.goTo
  rw [dif_neg back, if_neg forward, if_neg (by simp [blind])]
  simp [StreamCursor.skip, edge]

theorem unread_ensure_takeFault (ahead : Nat) (c : StreamCursor) :
    (c.takeFault.2.ensure ahead).2.unread = (c.ensure ahead).2.unread := by
  by_cases available : c.unread.drop ahead = []
  · cases going : c.ended with
    | true => rw [ensure_of_ended going, ensure_of_ended (c := c.takeFault.2) going]; rfl
    | false =>
      have still : ¬(c.widened ahead).ended = true := Bool.eq_false_iff.mp going
      have also : ¬(c.takeFault.2.widened ahead).ended = true := still
      rw [ensure_of_missing available going, ensure_of_missing (c := c.takeFault.2) available going,
        StreamCursor.fillTo, StreamCursor.fillTo, if_neg still, if_neg also]
      rfl
  · rw [ensure_of_available available, ensure_of_available (c := c.takeFault.2) available]
    rfl

theorem Knows.advance_of_nil (knows : Knows content sentinel c) (nothing : c.unread = [])
    {byte : UInt8} (next : content[c.position]? = some byte) :
    (Cursor.advance c).1 = true ∧ (Cursor.advance c).2.current = byte := by
  have none : (c.skip 1).unread = [] := by simp only [StreamCursor.skip, nothing, List.drop_nil]
  have place : (c.skip 1).position = c.position := by
    rw [position_skip, nothing, List.length_nil, Nat.min_zero, Nat.add_zero]
  obtain ⟨calm, -, source, -, told⟩ := knows.skip 1
  have reflects : Reflects content (c.skip 1).takeFault.2 := by
    refine ⟨calm, source, rfl, ?_, fun ended => ?_⟩
    · exact none ▸ List.nil_prefix
    · have beyond := told ended
      have inside := (List.getElem?_eq_some_iff.mp next).1
      rw [edge, none, place, List.length_nil] at beyond
      omega
  have head : (Cursor.advance c).2.unread.head? = some byte := by
    have shown := (Shows.of_ensure reflects).head?_eq
    rw [unread_ensure_takeFault, position_ensure, List.head?_drop] at shown
    exact shown.trans (place.symm ▸ next)
  obtain ⟨rest, shape⟩ := List.head?_eq_some_iff.mp head
  refine ⟨?_, ?_⟩
  · have flag : (Cursor.advance c).1 = !((Cursor.advance c).2.unread.drop 0).isEmpty :=
      fst_ensure 0 (c.skip 1)
    rw [flag, shape]
    rfl
  · rw [StreamCursor.current, shape, List.headD_cons]

theorem isOutside_consume {count : Nat} (whole : c.unread.length = count)
    (going : c.ended = false) (far : place + historyLength < c.position + count) :
    IsOutside place (c.consume count) := by
  have position : (c.consume count).position = c.position + count := by
    rw [StreamCursor.consume, position_settle, position_skip, whole, Nat.min_self]
  have none : (c.skip count).unread = [] := List.drop_eq_nil_of_le (Nat.le_of_eq whole)
  have short : (c.consume count).history.length ≤ historyLength := by
    rw [StreamCursor.consume, settle_eq, ensure_of_missing (c := c.skip count)
      (by rw [none, List.drop_nil]) going, history_fillTo]
    exact List.length_take_le _ _
  intro inside
  omega

def unseekable (bytes : ByteArray) : Reader where
  bytes := bytes
  canSeek := false

theorem faultless_unseekable (bytes : ByteArray) : (unseekable bytes).Faultless where
  noFailure := rfl
  canTell := rfl
  delivers _ := by
    intro none
    cases none

theorem fresh_unseekable {bytes : ByteArray} (long : 512 ≤ bytes.size) :
    (ofReader (unseekable bytes) 512).unread.length = 512 ∧
      (ofReader (unseekable bytes) 512).ended = false := by
  have first : (unseekable bytes).read 0 512 =
      (.delivered (Reader.slice bytes 0 512), (unseekable bytes).nextTurn) := rfl
  have whole : (Reader.slice bytes 0 512).length = 512 := by
    rw [Reader.length_slice]
    omega
  have brought : ((unseekable bytes).gather 0 1 512).bytes = Reader.slice bytes 0 512 ∧
      ((unseekable bytes).gather 0 1 512).ended = false := by
    rw [Reader.gather_delivered Nat.one_ne_zero first, whole, if_neg (by decide),
      Reader.gather_zero]
    exact ⟨List.append_nil _, rfl⟩
  exact ⟨(congrArg List.length brought.1).trans whole, brought.2⟩

def manyBytes : ByteArray := ⟨Array.replicate 2000 97⟩

/-- A seek that fails leaves the cursor at the end of its window, where it shows no byte. It stays
there, whatever is done but to go to another place, just when no byte of the source follows: else
the next move shows the byte that does. -/
theorem ended_after_failed_seek_iff (calm : reader.Faultless) (blind : reader.canSeek = false)
    (capacity : Nat) (sentinel : UInt8) {operations : List Operation}
    (reached : (ofReader reader capacity sentinel).performAll operations = c)
    (outside : IsOutside place c) :
    ((c.goTo place).atEnd = true ∧ (c.goTo place).current = sentinel ∧
      (c.goTo place).position = c.edge) ∧
    ((∀ further : List Operation, (∀ operation ∈ further, operation.keepsPlace = true) →
        IsEndedAt c.edge sentinel ((c.goTo place).performAll further)) ↔
      reader.content.length ≤ c.edge) ∧
    (∀ byte, reader.content[c.edge]? = some byte →
      (Cursor.advance (c.goTo place)).1 = true ∧
        (Cursor.advance (c.goTo place)).2.current = byte) := by
  have knows : Knows reader.content sentinel c :=
    reached ▸ (steady_knows reader.content sentinel).performAll
      (knows_ofReader calm blind capacity sentinel) fun _ _ => trivial
  have after : Knows reader.content sentinel (c.goTo place) := knows.goTo place
  obtain ⟨nothing, position⟩ := goTo_of_outside knows.blind outside
  have more : ∀ byte, reader.content[c.edge]? = some byte →
      (Cursor.advance (c.goTo place)).1 = true ∧
        (Cursor.advance (c.goTo place)).2.current = byte :=
    fun byte next => after.advance_of_nil nothing (position ▸ next)
  refine ⟨⟨?_, ?_, position⟩, ⟨fun stays => ?_, fun beyond further keeps => ?_⟩, more⟩
  · rw [StreamCursor.atEnd, nothing, List.isEmpty_nil]
  · rw [StreamCursor.current, nothing, after.sentinel, List.headD_nil]
  · refine Nat.le_of_not_lt fun inside => ?_
    have moves := (more _ (List.getElem?_eq_getElem inside)).1
    have still := (stays [] (by simp)).advance
    exact absurd (moves.symm.trans still) (by decide)
  · have spent : Spent c.edge sentinel (c.goTo place) :=
      ⟨nothing, position, after.sentinel, after.source ▸ beyond⟩
    refine ((steady_spent c.edge sentinel).performAll spent fun other among => ?_).isEndedAt
    exact absurd (keeps _ among) (by simp [Operation.keepsPlace])

theorem moves_on_after_failed_seek :
    (unseekable manyBytes).Faultless ∧ (unseekable manyBytes).canSeek = false ∧
      ∃ c, (ofReader (unseekable manyBytes) 512).performAll [.consume 512] = c ∧ IsOutside 0 c ∧
        ¬∀ further : List Operation, (∀ operation ∈ further, operation.keepsPlace = true) →
          IsEndedAt c.edge 0 ((c.goTo 0).performAll further) := by
  have calm := faultless_unseekable manyBytes
  have size : manyBytes.size = 2000 := Array.size_replicate
  obtain ⟨unread, going⟩ := fresh_unseekable (size ▸ (by decide : 512 ≤ 2000))
  have start : (ofReader (unseekable manyBytes) 512).position = 0 := position_ofReader calm 512 0
  have outside : IsOutside 0 ((ofReader (unseekable manyBytes) 512).consume 512) :=
    isOutside_consume unread going (by rw [start]; decide)
  have before : ((ofReader (unseekable manyBytes) 512).consume 512).edge < 2000 := by
    obtain ⟨after, position⟩ := (stands_ofReader calm 512).consume (Nat.le_of_eq unread.symm)
    have fits := (fits_ofReader (unseekable manyBytes) 512 0).consume 512
    rw [Fits, after.size, held] at fits
    rw [edge, position, start]
    change _ ≤ 512 at fits
    omega
  refine ⟨calm, rfl, _, rfl, outside, fun stays => ?_⟩
  have beyond : manyBytes.size ≤ ((ofReader (unseekable manyBytes) 512).consume 512).edge :=
    (ended_after_failed_seek_iff calm rfl 512 0 rfl outside).2.1.mp stays
  omega

end StreamCursor

end ProfileTrace
