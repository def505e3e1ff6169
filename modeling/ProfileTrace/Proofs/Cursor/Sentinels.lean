import ProfileTrace.Proofs.Cursor.Unseekable

/-! Two cursors over the same bytes with different sentinels. What their operations answer and
where they leave the cursors is the same, but for integers that the bytes end before: there the
byte that stands for the end is read as a digit, if it is one. -/

namespace ProfileTrace
open Cursor Text

def Operation.isOfText : Operation → Bool
  | .peek _ | .fillWindow | .consume _ => false
  | _ => true

namespace PlainCursor

def outcome (p : PlainCursor) (operation : Operation) : Answer × PlainCursor :=
  if operation.readsInteger && completesInteger p.sentinel p.rest then
    (.number 0, p.move p.rest.length)
  else p.perform 0 operation

def seen (outcome : Answer × PlainCursor) : Answer × Nat := (outcome.1, outcome.2.position)

variable {operation : Operation} {p : PlainCursor}

theorem outcome_of_completes (integer : operation.readsInteger = true)
    (completes : completesInteger p.sentinel p.rest = true) :
    p.outcome operation = (.number 0, p.move p.rest.length) := by
  rw [outcome, integer, completes]
  rfl

theorem outcome_of_apart
    (apart : operation.readsInteger = true → completesInteger p.sentinel p.rest = false) :
    p.outcome operation = p.perform 0 operation := by
  rw [outcome, if_neg]
  rw [Bool.and_eq_true, not_and, Bool.not_eq_true]
  exact apart

theorem perform_of_isOfText (ofText : operation.isOfText = true) (window : Nat) (p : PlainCursor) :
    p.perform window operation = p.perform 0 operation := by
  cases operation with
  | peek | fillWindow | consume => exact absurd ofText Bool.false_ne_true
  | _ => rfl

def withSentinel (sentinel : UInt8) (p : PlainCursor) : PlainCursor := { p with sentinel }

theorem seen_perform_withSentinel (ofText : operation.isOfText = true) (t : UInt8)
    (p : PlainCursor) :
    seen ((p.withSentinel t).perform 0 operation) = seen (p.perform 0 operation) := by
  cases operation with
  | peek | fillWindow | consume => exact absurd ofText Bool.false_ne_true
  | _ => rfl

theorem seen_ne_of_completes (integer : operation.readsInteger = true) {s : UInt8}
    (completes : completesInteger s p.rest = true) :
    seen (.number 0, p.move p.rest.length) ≠ seen (p.perform 0 operation) := by
  have zero : (0 : Int) ≠ absent := by decide
  cases operation with
  | readInt =>
    simp only [seen, perform, move, ne_eq, Prod.mk.injEq, Answer.number.injEq, not_and]
    intro value place
    rcases integerOf_of_completes completes with none | short
    · exact zero (value.trans none)
    · omega
  | readInt32 =>
    simp only [seen, perform, move, ne_eq, Prod.mk.injEq, Answer.number.injEq, not_and]
    intro value place
    rcases integerOf_of_completes completes with none | short
    · rw [none, ite_self] at value
      exact zero value
    · omega
  | _ => exact absurd integer Bool.false_ne_true

theorem seen_outcome_withSentinel_iff (ofText : operation.isOfText = true) (t : UInt8)
    (p : PlainCursor) :
    seen (p.outcome operation) = seen ((p.withSentinel t).outcome operation) ↔
      (operation.readsInteger = true →
        completesInteger p.sentinel p.rest = completesInteger t p.rest) := by
  have plain := seen_perform_withSentinel ofText t p
  have moved : seen (.number 0, (p.withSentinel t).move (p.withSentinel t).rest.length) =
      seen (.number 0, p.move p.rest.length) := rfl
  cases integer : operation.readsInteger with
  | false =>
    have never : ∀ {b : Bool}, operation.readsInteger = true → b = false := by simp [integer]
    rw [outcome_of_apart never, outcome_of_apart never, plain]
    simp
  | true =>
    cases first : completesInteger p.sentinel p.rest with
    | false =>
      rw [outcome_of_apart fun _ => first]
      cases second : completesInteger t p.rest with
      | false =>
        rw [outcome_of_apart (p := p.withSentinel t) fun _ => second, plain]
        simp
      | true =>
        rw [outcome_of_completes (p := p.withSentinel t) integer second, moved]
        simpa using (seen_ne_of_completes integer second).symm
    | true =>
      rw [outcome_of_completes integer first]
      cases second : completesInteger t p.rest with
      | false =>
        rw [outcome_of_apart (p := p.withSentinel t) fun _ => second, plain]
        simpa using seen_ne_of_completes integer first
      | true =>
        rw [outcome_of_completes (p := p.withSentinel t) integer second, moved]
        simp

end PlainCursor

namespace StreamCursor

def outcomes : List Operation → StreamCursor → List (Answer × Nat)
  | [], _ => []
  | operation :: operations, c =>
      ((c.perform operation).1, (c.perform operation).2.position) ::
        outcomes operations (c.perform operation).2

variable {content : List UInt8} {c d : StreamCursor} {operation : Operation}

theorem Settled.perform_eq_outcome (settled : Settled content c)
    (ofText : operation.isOfText = true) :
    (c.perform operation).1 = ((c.plain content).outcome operation).1 ∧
      Settled content (c.perform operation).2 ∧
      (c.perform operation).2.plain content = ((c.plain content).outcome operation).2 := by
  unfold PlainCursor.outcome
  split
  next completed =>
    rw [Bool.and_eq_true] at completed
    obtain ⟨integer, completes⟩ := completed
    obtain ⟨answer, after, moved⟩ := settled.performed (Simulation.respects_readInt _)
      (readInt_of_completes (c := c.overText content) completes)
    cases operation with
    | readInt => exact ⟨congrArg Answer.number answer, after, moved⟩
    | readInt32 =>
      refine ⟨congrArg Answer.number ?_, after, moved⟩
      simp only [readInt32, answer]
      rfl
    | _ => exact absurd integer Bool.false_ne_true
  next apart =>
    rw [Bool.and_eq_true, not_and, Bool.not_eq_true] at apart
    obtain ⟨answer, after, plain⟩ := settled.perform operation apart
    rw [PlainCursor.perform_of_isOfText ofText] at answer plain
    exact ⟨answer, after, plain⟩

theorem Settled.sentinel_perform (settled : Settled content c)
    (ofText : operation.isOfText = true) :
    (c.perform operation).2.sentinel = c.sentinel := by
  have same := congrArg PlainCursor.sentinel (settled.perform_eq_outcome ofText).2.2
  rw [PlainCursor.outcome] at same
  split at same
  · exact same
  · rwa [PlainCursor.sentinel_perform] at same

theorem Settled.seen_perform_iff (settled : Settled content c) (other : Settled content d)
    (place : d.position = c.position) (ofText : operation.isOfText = true) :
    ((c.perform operation).1, (c.perform operation).2.position) =
        ((d.perform operation).1, (d.perform operation).2.position) ↔
      (operation.readsInteger = true →
        completesInteger c.sentinel (content.drop c.position) =
          completesInteger d.sentinel (content.drop c.position)) := by
  have seen : ∀ {c : StreamCursor}, Settled content c →
      ((c.perform operation).1, (c.perform operation).2.position) =
        PlainCursor.seen ((c.plain content).outcome operation) := by
    intro c settled
    obtain ⟨answer, -, plain⟩ := settled.perform_eq_outcome ofText
    rw [PlainCursor.seen, ← answer, ← plain]
    rfl
  have same : d.plain content = (c.plain content).withSentinel d.sentinel := by
    rw [plain, place]
    rfl
  rw [seen settled, seen other, same]
  exact PlainCursor.seen_outcome_withSentinel_iff ofText d.sentinel (c.plain content)

theorem Settled.outcomes_eq_iff_completes (settled : Settled content c) (other : Settled content d)
    (place : d.position = c.position) {operations : List Operation}
    (ofText : ∀ operation ∈ operations, operation.isOfText = true) :
    c.outcomes operations = d.outcomes operations ↔
      ∀ n operation, operations[n]? = some operation → operation.readsInteger = true →
        completesInteger c.sentinel (content.drop (c.performAll (operations.take n)).position) =
          completesInteger d.sentinel
            (content.drop (c.performAll (operations.take n)).position) := by
  induction operations generalizing c d with
  | nil => simp [outcomes]
  | cons first operations ih =>
    have here : first.isOfText = true := ofText _ List.mem_cons_self
    have later : ∀ operation ∈ operations, operation.isOfText = true :=
      fun operation among => ofText operation (List.mem_cons_of_mem _ among)
    obtain ⟨-, after, -⟩ := settled.perform_eq_outcome here
    obtain ⟨-, otherAfter, -⟩ := other.perform_eq_outcome here
    have step := settled.seen_perform_iff other place here
    have rest := fun seen : ((c.perform first).1, (c.perform first).2.position) =
        ((d.perform first).1, (d.perform first).2.position) =>
      ih after otherAfter (congrArg Prod.snd seen).symm later
    rw [settled.sentinel_perform here, other.sentinel_perform here] at rest
    rw [outcomes, outcomes, List.cons.injEq, and_congr_right rest, step]
    conv =>
      rhs
      rw [← Nat.and_forall_add_one]
    simp only [List.getElem?_cons_zero, List.getElem?_cons_succ, List.take_zero,
      List.take_succ_cons, Option.some.injEq, forall_eq']
    rfl

theorem Settled.performAll (settled : Settled content c) {operations : List Operation}
    (ofText : ∀ operation ∈ operations, operation.isOfText = true) :
    Settled content (c.performAll operations) ∧
      (c.performAll operations).sentinel = c.sentinel := by
  induction operations generalizing c with
  | nil => exact ⟨settled, rfl⟩
  | cons first operations ih =>
    have here : first.isOfText = true := ofText _ List.mem_cons_self
    obtain ⟨-, after, -⟩ := settled.perform_eq_outcome here
    have run := ih after fun operation among => ofText operation (List.mem_cons_of_mem _ among)
    rw [settled.sentinel_perform here] at run
    exact run

theorem Settled.fst_readInt_of_atEnd (settled : Settled content c) (ended : c.atEnd = true) :
    (readInt c).1 = if isDigitByte c.sentinel then 0 else absent := by
  have nothing : (c.overText content).rest = [] := by
    have same := settled.toShows.atEnd_eq.symm.trans ended
    exact List.isEmpty_iff.mp same
  have completes : completesInteger (c.overText content).sentinel (c.overText content).rest =
      isDigitByte c.sentinel := by
    rw [nothing]
    rfl
  cases digit : isDigitByte c.sentinel with
  | true =>
    exact (settled.performed (Simulation.respects_readInt _)
      (readInt_of_completes (completes.trans digit))).1
  | false =>
    have read := (settled.performed (Simulation.respects_readInt _)
      (readInt_eq_integerOf (completes.trans digit))).1
    rw [nothing] at read
    exact read

variable {reader : Reader}

/-- Operations of the text, from any place over any source that does not fail, answer the same and
leave the cursor at the same places with one sentinel as with another just when no integer is read
that one of the two completes and the other does not: where the text ends before the digits of the
integer, a sentinel that is a digit is read as one. So sentinels that are no digits are never
mistaken for data, while an integer at the end is zero and not absent if the sentinel is a digit. -/
theorem outcomes_eq_iff (calm : reader.Faultless) (seeks : reader.canSeek = true)
    (capacity : Nat) (s t : UInt8) {operations : List Operation}
    (ofText : ∀ operation ∈ operations, operation.isOfText = true) :
    ((ofReader reader capacity s).outcomes operations =
        (ofReader reader capacity t).outcomes operations ↔
      ∀ n operation, operations[n]? = some operation → operation.readsInteger = true →
        ∀ rest, rest = reader.content.drop
            ((ofReader reader capacity s).performAll (operations.take n)).position →
          completesInteger s rest = completesInteger t rest) ∧
    (isHexDigit s = false → isHexDigit t = false →
      (ofReader reader capacity s).outcomes operations =
        (ofReader reader capacity t).outcomes operations) ∧
    ∀ n, ((ofReader reader capacity s).performAll (operations.take n)).atEnd = true →
      (readInt ((ofReader reader capacity s).performAll (operations.take n))).1 =
        if isDigitByte s then 0 else absent := by
  have settled := settled_ofReader calm seeks capacity s
  have other := settled_ofReader calm seeks capacity t
  have place : (ofReader reader capacity t).position = (ofReader reader capacity s).position := by
    rw [position_ofReader calm, position_ofReader calm]
  have run := settled.outcomes_eq_iff_completes other place ofText
  rw [sentinel_ofReader, sentinel_ofReader] at run
  refine ⟨?_, fun first second => ?_, fun n ended => ?_⟩
  · simp only [forall_eq]
    exact run
  · refine run.mpr fun n operation _ _ => ?_
    rw [completesInteger_of_noDigit first, completesInteger_of_noDigit second]
  · have taken : ∀ operation ∈ operations.take n, operation.isOfText = true :=
      fun operation among => ofText operation (List.mem_of_mem_take among)
    obtain ⟨after, sentinel⟩ := settled.performAll taken
    rw [after.fst_readInt_of_atEnd ended, sentinel, sentinel_ofReader]

theorem outcomes_eq_iff_hexMark :
    (Reader.ofBytes ⟨#[0x30, 0x78]⟩).Faultless ∧ (Reader.ofBytes ⟨#[0x30, 0x78]⟩).canSeek = true ∧
      (∀ operation ∈ [Operation.readInt], operation.isOfText = true) ∧
      (ofReader (Reader.ofBytes ⟨#[0x30, 0x78]⟩) 0 0x61).outcomes [.readInt] ≠
        (ofReader (Reader.ofBytes ⟨#[0x30, 0x78]⟩) 0 0x00).outcomes [.readInt] := by
  have calm := Reader.faultless_ofBytes ⟨#[0x30, 0x78]⟩
  have ofText : ∀ operation ∈ [Operation.readInt], operation.isOfText = true := by
    simp [Operation.isOfText]
  have start := position_ofReader calm 0 0x61
  refine ⟨calm, rfl, ofText, fun same => ?_⟩
  have completes := (outcomes_eq_iff calm rfl 0 0x61 0x00 ofText).1.mp same 0 .readInt rfl rfl
    [0x30, 0x78] (by rw [List.take_zero, performAll, List.foldl_nil, start]; rfl)
  exact absurd completes (by decide)

end StreamCursor

end ProfileTrace
