import ProfileTrace.Proofs.Cursor.Simulation
import ProfileTrace.Proofs.Record.Scan

/-! A cursor over a source against one that holds all of the bytes and a place among them. The
window of the first slides, grows and is thrown away by a seek; none of that can be seen in what
its operations answer, in where they leave it, or in the byte that it then shows. Only how many of
the bytes ahead are held depends on the window. -/

namespace ProfileTrace
open Cursor Text
open TextCursor (advance_eq beforeLast drop_length_takeWhile readUntil_eq readUntilLastOnLine_eq
  skipToOnLine_eq skipWhile_eq)

/-- What can be asked of a cursor. Reading until a byte, until one of several and until a blank
are all reading until a byte that passes a test. -/
inductive Operation where
  | advance
  | peek (ahead : Nat)
  | mark
  | restore (place : Nat)
  | skipWhitespace
  | skipSpaces
  | skipTo (target : UInt8)
  | skipToOnLine (target : UInt8)
  | readUntil (stop : UInt8 → Bool)
  | readUntilLastOnLine (target : UInt8)
  | readInt
  | readInt32
  | fillWindow
  | consume (count : Nat)

def Operation.readsInteger : Operation → Bool
  | .readInt | .readInt32 => true
  | _ => false

inductive Answer where
  | done
  | flag (value : Bool)
  | byte (value : UInt8)
  | place (position : Nat)
  | text (bytes : List UInt8)
  | number (value : Int)

structure PlainCursor where
  bytes : List UInt8
  position : Nat
  sentinel : UInt8

namespace PlainCursor

def rest (p : PlainCursor) : List UInt8 := p.bytes.drop p.position

def current (p : PlainCursor) : UInt8 := p.rest.headD p.sentinel

def atEnd (p : PlainCursor) : Bool := p.rest.isEmpty

def move (count : Nat) (p : PlainCursor) : PlainCursor := { p with position := p.position + count }

theorem rest_move (count : Nat) (p : PlainCursor) : (p.move count).rest = p.rest.drop count := by
  simp only [rest, move, List.drop_drop]

def run (test : UInt8 → Bool) (p : PlainCursor) : List UInt8 := p.rest.takeWhile test

/-- What an operation answers and where it leaves the cursor. How many of the bytes ahead a
window holds is given; only filling it and consuming from it ask for that. -/
def perform (window : Nat) (p : PlainCursor) : Operation → Answer × PlainCursor
  | .advance => (.flag (1 < p.rest.length), p.move (min 1 p.rest.length))
  | .peek ahead => (.byte ((p.rest[ahead]?).getD p.sentinel), p)
  | .mark => (.place p.position, p)
  | .restore place => (.done, { p with position := place })
  | .skipWhitespace => (.done, p.move (p.run isWhitespaceByte).length)
  | .skipSpaces => (.done, p.move (p.run isSpaceByte).length)
  | .skipTo target => (.done, p.move (p.run (· != target)).length)
  | .skipToOnLine target =>
      let next := p.move (p.run fun b => b != target && b != 0x0A).length
      (.flag (next.rest.head? == some target), next)
  | .readUntil stop => (.text (p.run (!stop ·)), p.move (p.run (!stop ·)).length)
  | .readUntilLastOnLine target =>
      let before := beforeLast target (p.run (· != 0x0A))
      (.text before, p.move before.length)
  | .readInt => (.number (integerOf p.rest).1, p.move (integerOf p.rest).2)
  | .readInt32 =>
      let value := (integerOf p.rest).1
      (.number (if -0x80000000 ≤ value ∧ value < 0x80000000 then value else absent),
        p.move (integerOf p.rest).2)
  | .fillWindow => (.text (p.rest.take window), p)
  | .consume count => (.done, p.move (min count window))

theorem sentinel_perform (window : Nat) (p : PlainCursor) (operation : Operation) :
    (p.perform window operation).2.sentinel = p.sentinel := by
  cases operation <;> rfl

end PlainCursor

namespace StreamCursor

def perform (c : StreamCursor) : Operation → Answer × StreamCursor
  | .advance => (.flag (advance c).1, (advance c).2)
  | .peek ahead => (.byte (peek ahead c).1, (peek ahead c).2)
  | .mark => (.place (mark c), c)
  | .restore place => (.done, restore (σ := StreamCursor) place c)
  | .skipWhitespace => (.done, skipWhitespace c)
  | .skipSpaces => (.done, skipSpaces c)
  | .skipTo target => (.done, skipTo target c)
  | .skipToOnLine target => (.flag (skipToOnLine target c).1, (skipToOnLine target c).2)
  | .readUntil stop => (.text (readUntil stop c).1, (readUntil stop c).2)
  | .readUntilLastOnLine target =>
      (.text (readUntilLastOnLine target c).1, (readUntilLastOnLine target c).2)
  | .readInt => (.number (readInt c).1, (readInt c).2)
  | .readInt32 => (.number (readInt32 c).1, (readInt32 c).2)
  | .fillWindow => (.text c.fillWindow.unread, c.fillWindow)
  | .consume count => (.done, c.consume count)

def window (c : StreamCursor) : Operation → Nat
  | .fillWindow => c.fillWindow.unread.length
  | _ => c.unread.length

/-- Both cursors show the same. The window holds the next of the bytes, and all that are left
once the source has said that it ends; no fault was met. -/
structure Sees (c : StreamCursor) (p : PlainCursor) : Prop where
  position_eq : Cursor.position c = p.position
  current_eq : Cursor.current c = p.current
  atEnd_eq : Cursor.atEnd c = p.atEnd
  held : c.unread <+: p.rest
  all : c.ended = true → c.unread = p.rest
  noFault : c.fault = none

/-- The cursors see the same now, and after each of the operations, which get the same answers. -/
def Agree : List Operation → StreamCursor → PlainCursor → Prop
  | [], c, p => Sees c p
  | operation :: operations, c, p =>
      Sees c p ∧
        (c.perform operation).1 = (p.perform (c.window operation) operation).1 ∧
        Agree operations (c.perform operation).2 (p.perform (c.window operation) operation).2

def plain (content : List UInt8) (c : StreamCursor) : PlainCursor :=
  ⟨content, c.position, c.sentinel⟩

variable {content : List UInt8} {c : StreamCursor}

theorem Shows.sees (shown : Shows content c) : Sees c (c.plain content) where
  position_eq := rfl
  current_eq := shown.current_eq
  atEnd_eq := shown.atEnd_eq
  held := shown.fetched
  all := shown.all
  noFault := shown.noFault

theorem sentinel_fillWindow (c : StreamCursor) : c.fillWindow.sentinel = c.sentinel := by
  unfold fillWindow
  split
  · rfl
  · exact sentinel_fillTo _ _

theorem sentinel_consume (count : Nat) (c : StreamCursor) :
    (c.consume count).sentinel = c.sentinel :=
  sentinel_settle _

structure Performed (content : List UInt8) (c : StreamCursor) (operation : Operation) : Prop where
  answer : (c.perform operation).1 =
    ((c.plain content).perform (c.window operation) operation).1
  settled : Settled content (c.perform operation).2
  plain_eq : (c.perform operation).2.plain content =
    ((c.plain content).perform (c.window operation) operation).2

theorem plain_eq_of_overText {after : StreamCursor} {count : Nat}
    (same : after.overText content = (c.overText content).skip count) :
    after.plain content = (c.plain content).move count := by
  have place : after.position = c.position + count := congrArg TextCursor.position same
  have sentinel : after.sentinel = c.sentinel := congrArg TextCursor.sentinel same
  simp only [plain, place, sentinel, PlainCursor.move]

theorem Settled.performed {α : Type} (settled : Settled content c)
    {read : StreamCursor → α × StreamCursor} {other : TextCursor → α × TextCursor}
    (respects : (simulation content).Respects read other) {value : α} {count : Nat}
    (found : other (c.overText content) = (value, (c.overText content).skip count)) :
    (read c).1 = value ∧ Settled content (read c).2 ∧
      (read c).2.plain content = (c.plain content).move count := by
  obtain ⟨same, after, text⟩ := respects ⟨settled, rfl⟩
  rw [found] at same text
  exact ⟨same, after, plain_eq_of_overText text.symm⟩

theorem Settled.moved (settled : Settled content c) {move : StreamCursor → StreamCursor}
    {other : TextCursor → TextCursor} (keeps : (simulation content).Keeps move other) {count : Nat}
    (found : other (c.overText content) = (c.overText content).skip count) :
    Settled content (move c) ∧ (move c).plain content = (c.plain content).move count := by
  obtain ⟨after, text⟩ := keeps ⟨settled, rfl⟩
  rw [found] at text
  exact ⟨after, plain_eq_of_overText text.symm⟩

theorem Settled.perform (settled : Settled content c) (operation : Operation)
    (apart : operation.readsInteger = true →
      completesInteger c.sentinel (content.drop c.position) = false) :
    Performed content c operation := by
  cases operation with
  | advance =>
    obtain ⟨answer, after, plain⟩ := settled.performed
      (Simulation.respects_advance _) (advance_eq (c.overText content))
    exact ⟨congrArg Answer.flag answer, after, plain⟩
  | peek ahead =>
    have still : Cursor.peek ahead (c.overText content) =
        ((((c.overText content).rest[ahead]?).getD c.sentinel), (c.overText content).skip 0) := rfl
    obtain ⟨answer, after, plain⟩ := settled.performed (Simulation.respects_peek _ ahead) still
    exact ⟨congrArg Answer.byte answer, after, plain⟩
  | mark => exact ⟨rfl, settled, rfl⟩
  | restore place =>
    obtain ⟨there, moved⟩ := settled.goTo place
    refine ⟨rfl, there, ?_⟩
    change (⟨content, (c.goTo place).position, (c.goTo place).sentinel⟩ : PlainCursor) = _
    rw [moved, sentinel_goTo]
    rfl
  | skipWhitespace =>
    obtain ⟨after, plain⟩ := settled.moved
      (Simulation.keeps_skipWhile _ isWhitespaceByte) (skipWhile_eq isWhitespaceByte _)
    exact ⟨rfl, after, plain⟩
  | skipSpaces =>
    obtain ⟨after, plain⟩ := settled.moved
      (Simulation.keeps_skipWhile _ isSpaceByte) (skipWhile_eq isSpaceByte _)
    exact ⟨rfl, after, plain⟩
  | skipTo target =>
    obtain ⟨after, plain⟩ := settled.moved
      (Simulation.keeps_skipWhile _ (· != target)) (skipWhile_eq (· != target) _)
    exact ⟨rfl, after, plain⟩
  | skipToOnLine target =>
    obtain ⟨answer, after, plain⟩ := settled.performed
      (Simulation.respects_skipToOnLine _ target) (skipToOnLine_eq (c.overText content))
    refine ⟨?_, after, plain⟩
    -- the flag tells what stands where the cursor is left, which the text says by `dropWhile`
    rw [← drop_length_takeWhile] at answer
    exact congrArg Answer.flag (answer.trans
      (congrArg (fun rest => rest.head? == some target) ((c.plain content).rest_move _).symm))
  | readUntil stop =>
    obtain ⟨answer, after, plain⟩ := settled.performed
      (Simulation.respects_readUntil _ stop) (readUntil_eq stop (c.overText content))
    exact ⟨congrArg Answer.text answer, after, plain⟩
  | readUntilLastOnLine target =>
    obtain ⟨answer, after, plain⟩ := settled.performed
      (Simulation.respects_readUntilLastOnLine _ target)
      (readUntilLastOnLine_eq target (c.overText content))
    exact ⟨congrArg Answer.text answer, after, plain⟩
  | readInt =>
    obtain ⟨answer, after, plain⟩ := settled.performed
      (Simulation.respects_readInt _) (readInt_eq_integerOf (c := c.overText content) (apart rfl))
    exact ⟨congrArg Answer.number answer, after, plain⟩
  | readInt32 =>
    obtain ⟨answer, after, plain⟩ := settled.performed
      (Simulation.respects_readInt _) (readInt_eq_integerOf (c := c.overText content) (apart rfl))
    refine ⟨congrArg Answer.number ?_, after, plain⟩
    simp only [readInt32, answer]
    rfl
  | fillWindow =>
    have filled := settled.fillWindow
    refine ⟨congrArg Answer.text ?_, filled, ?_⟩
    · have held := List.prefix_iff_eq_take.mp filled.fetched
      rwa [position_fillWindow] at held
    · change (⟨content, c.fillWindow.position, c.fillWindow.sentinel⟩ : PlainCursor) = _
      rw [position_fillWindow, sentinel_fillWindow]
      rfl
  | consume count =>
    obtain ⟨after, moved⟩ := settled.consume count
    refine ⟨rfl, after, ?_⟩
    change (⟨content, (c.consume count).position, (c.consume count).sentinel⟩ : PlainCursor) = _
    rw [moved, sentinel_consume]
    rfl

theorem Settled.agree (settled : Settled content c) (noDigit : isHexDigit c.sentinel = false)
    (operations : List Operation) : Agree operations c (c.plain content) := by
  induction operations generalizing c with
  | nil => exact settled.toShows.sees
  | cons operation operations ih =>
    have step := settled.perform operation fun _ => completesInteger_of_noDigit noDigit _
    refine ⟨settled.toShows.sees, step.answer, ?_⟩
    have sentinel : (c.perform operation).2.sentinel = c.sentinel := by
      have same := congrArg PlainCursor.sentinel step.plain_eq
      rwa [PlainCursor.sentinel_perform] at same
    rw [← step.plain_eq]
    exact ih step.settled (by rw [sentinel, noDigit])

end StreamCursor

end ProfileTrace
