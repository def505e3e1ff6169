import ProfileTrace.Proofs.Cursor.Unseekable

/-! Short rewinds. The window of a cursor holds every place that it reached, from a history behind
the farthest of them on, however often it slid and went back in between. So going back no farther
needs no seek, and a source that cannot seek serves as well as one that can. -/

namespace ProfileTrace

namespace Reader

def seeking (reader : Reader) : Reader := { reader with canSeek := true }

def Delivery.seeking (delivery : Delivery) : Delivery :=
  { delivery with reader := delivery.reader.seeking }

variable {reader : Reader}

theorem Faultless.seeking (calm : reader.Faultless) : reader.seeking.Faultless :=
  ⟨calm.noFailure, calm.canTell, calm.delivers⟩

theorem read_seeking (reader : Reader) (offset space : Nat) :
    reader.seeking.read offset space =
      ((reader.read offset space).1, (reader.read offset space).2.seeking) := by
  by_cases waiting : 0 < reader.pending
  · have also : 0 < reader.seeking.pending := waiting
    rw [read, read, if_pos waiting, if_pos also]
    rfl
  · have also : ¬0 < reader.seeking.pending := waiting
    rw [read, read, if_neg waiting, if_neg also]
    by_cases failing : reader.failsFrom.any (· ≤ offset) = true
    · have also : reader.seeking.failsFrom.any (· ≤ offset) = true := failing
      rw [if_pos failing, if_pos also]
      rfl
    · have also : ¬reader.seeking.failsFrom.any (· ≤ offset) = true := failing
      rw [if_neg failing, if_neg also]
      rfl

theorem gather_seeking (reader : Reader) (offset need space : Nat) :
    reader.seeking.gather offset need space = (reader.gather offset need space).seeking := by
  fun_induction gather reader offset need space with
  | case1 reader offset space => exact gather_zero _ _ _
  | case2 reader offset need space some after found ih =>
    have read := read_seeking reader offset space
    rw [found] at read
    rw [gather_interrupted some read, ih]
  | case3 reader offset need space some after found =>
    have read := read_seeking reader offset space
    rw [found] at read
    rw [gather_failed some read]
    rfl
  | case4 reader offset need space some bytes after found empty =>
    have read := read_seeking reader offset space
    rw [found] at read
    rw [gather_delivered some read, if_pos empty]
    rfl
  | case5 reader offset need space some bytes after found nonempty more ih =>
    have read := read_seeking reader offset space
    rw [found] at read
    rw [gather_delivered some read, if_neg nonempty]
    simp only [ih]
    rfl

end Reader

namespace StreamCursor
open Cursor (InStep)

/-! ### A cursor whose source could seek -/

def seeking (c : StreamCursor) : StreamCursor :=
  { c with reader := c.reader.seeking, within := c.within }

variable {content : List UInt8} {reached : List Nat} {place : Nat} {c d : StreamCursor}

theorem fillTo_seeking (needed : Nat) (c : StreamCursor) :
    c.seeking.fillTo needed = (c.fillTo needed).seeking := by
  have delivery := Reader.gather_seeking c.reader (c.position + c.unread.length)
    (needed - c.held) (c.capacity - c.held)
  cases going : c.ended with
  | true =>
    have also : c.seeking.ended = true := going
    rw [fillTo, fillTo, if_pos going, if_pos also]
  | false =>
    have also : ¬c.seeking.ended = true := Bool.eq_false_iff.mp going
    rw [fillTo, fillTo, if_neg (Bool.eq_false_iff.mp going), if_neg also]
    simp only [seeking, held] at delivery ⊢
    simp only [delivery]
    rfl

theorem ensure_seeking (ahead : Nat) (c : StreamCursor) :
    c.seeking.ensure ahead = ((c.ensure ahead).1, (c.ensure ahead).2.seeking) := by
  have after : (c.seeking.ensure ahead).2 = (c.ensure ahead).2.seeking := by
    by_cases missing : c.unread.drop ahead = []
    · cases going : c.ended with
      | true => rw [ensure_of_ended going, ensure_of_ended (c := c.seeking) going]
      | false =>
        rw [ensure_of_missing missing going, ensure_of_missing (c := c.seeking) missing going]
        exact fillTo_seeking _ (c.widened ahead)
    · rw [ensure_of_available missing, ensure_of_available (c := c.seeking) missing]
  refine Prod.ext ?_ after
  rw [fst_ensure, fst_ensure, after]
  rfl

theorem settle_seeking (c : StreamCursor) : c.seeking.settle = c.settle.seeking := by
  rw [settle_eq, settle_eq, ensure_seeking]

theorem advance_seeking (c : StreamCursor) :
    Cursor.advance c.seeking = ((Cursor.advance c).1, (Cursor.advance c).2.seeking) :=
  ensure_seeking 0 (c.skip 1)

theorem peek_seeking (ahead : Nat) (c : StreamCursor) :
    Cursor.peek ahead c.seeking = ((Cursor.peek ahead c).1, (Cursor.peek ahead c).2.seeking) := by
  change peek ahead c.seeking = ((peek ahead c).1, (peek ahead c).2.seeking)
  simp only [peek, ensure_seeking]
  rfl

theorem fillWindow_seeking (c : StreamCursor) : c.seeking.fillWindow = c.fillWindow.seeking := by
  cases going : c.ended with
  | true =>
    have also : c.seeking.ended = true := going
    rw [fillWindow, fillWindow, if_pos going, if_pos also]
  | false =>
    have also : ¬c.seeking.ended = true := Bool.eq_false_iff.mp going
    rw [fillWindow, fillWindow, if_neg (Bool.eq_false_iff.mp going), if_neg also]
    exact fillTo_seeking c.capacity c.slide

theorem goTo_seeking (inside : ¬IsOutside place c) :
    c.seeking.goTo place = (c.goTo place).seeking := by
  rw [IsOutside, Decidable.not_not] at inside
  by_cases back : place ≤ c.position
  · have held : c.position - c.history.length ≤ place ∧ place ≤ c.position := ⟨inside.1, back⟩
    have also : c.seeking.position - c.seeking.history.length ≤ place ∧
        place ≤ c.seeking.position := held
    rw [goTo, goTo, dif_pos held, dif_pos also]
    exact settle_seeking (c.unskip (c.position - place) (Nat.sub_le _ _))
  · have ahead : c.position ≤ place ∧ place ≤ c.position + c.unread.length :=
      ⟨Nat.le_of_not_le back, inside.2⟩
    have also : c.seeking.position ≤ place ∧
        place ≤ c.seeking.position + c.seeking.unread.length := ahead
    rw [goTo, goTo, dif_neg (fun held => back held.2), dif_neg (fun held => back held.2),
      if_pos ahead, if_pos also]
    exact settle_seeking (c.skip (place - c.position))

/-! ### What the window retains -/

/-- The window ends behind all places that were reached, and begins before all of those that no
place reached lies more than a history beyond. -/
structure Retains (reached : List Nat) (c : StreamCursor) : Prop where
  behind : ∀ place ∈ reached, place ≤ c.edge
  before : ∀ place ∈ reached, (∀ other ∈ c.position :: reached, other ≤ place + historyLength) →
    c.position - c.history.length ≤ place

namespace Retains

theorem nil (c : StreamCursor) : Retains [] c := ⟨by simp, by simp⟩

theorem slide (retains : Retains reached c) : Retains reached c.slide where
  behind := retains.behind
  before place among near := by
    have held := retains.before place among near
    have here : c.position ≤ place + historyLength := near _ List.mem_cons_self
    simp only [StreamCursor.slide, List.length_take]
    omega

theorem fillTo (retains : Retains reached c) (needed : Nat) :
    Retains reached (c.fillTo needed) where
  behind place among := by
    have fetched := (unread_fetched_fillTo needed c).length_le
    have inside := retains.behind place among
    rw [edge] at inside ⊢
    rw [position_fillTo]
    omega
  before place among near := by
    rw [position_fillTo] at near ⊢
    rw [history_fillTo]
    exact retains.before place among near

theorem ensure (retains : Retains reached c) (ahead : Nat) :
    Retains reached (c.ensure ahead).2 := by
  rcases ensure_cases ahead c with ⟨same, -⟩ | filling
  · rwa [same]
  · have wide : Retains reached (c.widened ahead) := ⟨retains.slide.behind, retains.slide.before⟩
    rw [filling]
    exact wide.fillTo _

theorem settle (retains : Retains reached c) : Retains reached c.settle := by
  rw [settle_eq]
  exact retains.ensure 0

theorem fillWindow (retains : Retains reached c) : Retains reached c.fillWindow := by
  unfold StreamCursor.fillWindow
  split
  · exact retains
  · exact retains.slide.fillTo c.capacity

theorem skip (retains : Retains reached c) (count : Nat) : Retains reached (c.skip count) where
  behind place among := by
    rw [edge_skip]
    exact retains.behind place among
  before place among near := by
    have moved := position_skip count c
    have held := retains.before place among fun other arrived => by
      rcases List.mem_cons.mp arrived with rfl | arrived
      · have here := near _ List.mem_cons_self
        omega
      · exact near other (List.mem_cons_of_mem _ arrived)
    rw [moved]
    simp only [StreamCursor.skip, List.length_append, List.length_reverse, List.length_take]
    omega

theorem unskip (retains : Retains reached c) (here : c.position ∈ reached) {count : Nat}
    (bound : count ≤ c.position) (held : count ≤ c.history.length) :
    Retains reached (c.unskip count bound) where
  behind place among := by
    rw [edge_unskip]
    exact retains.behind place among
  before place among near := by
    have kept := retains.before place among fun other arrived => by
      rcases List.mem_cons.mp arrived with rfl | arrived
      · exact near _ (List.mem_cons_of_mem _ here)
      · exact near other (List.mem_cons_of_mem _ arrived)
    simp only [StreamCursor.unskip, List.length_take, List.length_drop]
    omega

theorem not_isOutside (retains : Retains reached c) (here : c.position ∈ reached)
    (among : place ∈ reached) (near : ∀ other ∈ reached, other ≤ place + historyLength) :
    ¬IsOutside place c := by
  refine not_not_intro ⟨retains.before place among fun other arrived => ?_,
    retains.behind place among⟩
  rcases List.mem_cons.mp arrived with rfl | arrived
  · exact near _ here
  · exact near other arrived

theorem goTo (retains : Retains reached c) (here : c.position ∈ reached)
    (inside : ¬IsOutside place c) : Retains reached (c.goTo place) := by
  rw [IsOutside, Decidable.not_not] at inside
  unfold StreamCursor.goTo
  split
  next back => exact (retains.unskip here (Nat.sub_le _ _) (by omega)).settle
  next notBack =>
    rw [if_pos (by omega)]
    exact (retains.skip _).settle

end Retains

/-! ### Operations without a seek -/

structure Trails (reached : List Nat) (c d : StreamCursor) : Prop where
  twin : d = c.seeking
  retains : Retains reached c

theorem inStep_trails (reached : List Nat) : InStep (Trails reached) where
  atEnd_eq := by
    rintro c _ ⟨rfl, -⟩
    rfl
  current_eq := by
    rintro c _ ⟨rfl, -⟩
    rfl
  advance := by
    rintro c _ ⟨rfl, retains⟩
    exact ⟨congrArg Prod.snd (advance_seeking c), (retains.skip 1).ensure 0⟩

end StreamCursor

/-- An operation that goes back only if that is asked of it. Integers are left out. -/
def Operation.isForward : Operation → Bool
  | .readUntilLastOnLine _ | .readInt | .readInt32 => false
  | _ => true

namespace StreamCursor
variable {content : List UInt8} {reached : List Nat} {place : Nat} {c : StreamCursor}
  {operation : Operation} {operations : List Operation}

theorem Retains.perform (retains : Retains reached c) (here : c.position ∈ reached)
    (forward : operation.isForward = true)
    (short : ∀ place, operation = .restore place →
      place ∈ reached ∧ ∀ other ∈ reached, other ≤ place + historyLength) :
    (c.perform operation).1 = (c.seeking.perform operation).1 ∧
      Trails reached (c.perform operation).2 (c.seeking.perform operation).2 := by
  have alike : Trails reached c c.seeking := ⟨rfl, retains⟩
  have inStep := inStep_trails reached
  cases operation with
  | advance =>
    exact ⟨congrArg Answer.flag (inStep.fst_advance_eq alike), inStep.advance alike⟩
  | peek ahead =>
    have same := peek_seeking ahead c
    exact ⟨congrArg Answer.byte (congrArg Prod.fst same).symm, congrArg Prod.snd same,
      retains.ensure ahead⟩
  | mark => exact ⟨rfl, alike⟩
  | restore place =>
    obtain ⟨among, near⟩ := short place rfl
    have inside := retains.not_isOutside here among near
    exact ⟨rfl, goTo_seeking inside, retains.goTo here inside⟩
  | skipWhitespace => exact ⟨rfl, inStep.skipWhile Text.isWhitespaceByte alike⟩
  | skipSpaces => exact ⟨rfl, inStep.skipWhile Text.isSpaceByte alike⟩
  | skipTo target => exact ⟨rfl, inStep.skipWhile (· != target) alike⟩
  | skipToOnLine target =>
    obtain ⟨same, after⟩ := inStep.skipToOnLine target alike
    exact ⟨congrArg Answer.flag same, after⟩
  | readUntil stop =>
    obtain ⟨same, after⟩ := inStep.readUntil stop alike
    exact ⟨congrArg Answer.text same, after⟩
  | fillWindow =>
    have same := fillWindow_seeking c
    exact ⟨congrArg Answer.text (congrArg unread same).symm, same, retains.fillWindow⟩
  | consume count => exact ⟨rfl, settle_seeking (c.skip count), (retains.skip count).settle⟩
  | readUntilLastOnLine | readInt | readInt32 => exact absurd forward Bool.false_ne_true

theorem Agree.sees {p : PlainCursor} (agree : Agree operations c p) : Sees c p := by
  cases operations with
  | nil => exact agree
  | cons operation operations => exact agree.1

variable {reader : Reader}

end StreamCursor

end ProfileTrace
