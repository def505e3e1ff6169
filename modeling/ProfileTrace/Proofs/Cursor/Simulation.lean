import ProfileTrace.Cursor.InMemory
import ProfileTrace.Cursor.Scan
import ProfileTrace.Proofs.Cursor.Fetching

/-! Cursors that behave alike. Scanning only asks a cursor what it shows and moves it, so that
whatever is scanned is the same over two cursors whose single moves keep them alike. A cursor
over a source that never fails is alike to one over the whole text of the source. -/

namespace ProfileTrace.Cursor
open Text

section
variable {σ : Type} [Cursor σ]

theorem skipWhile_step (test : UInt8 → Bool) (c : σ) :
    skipWhile test c =
      if test (current c) then
        if (advance c).1 then skipWhile test (advance c).2 else (advance c).2
      else c := by
  rw [skipWhile]
  split
  · split
    next next moved => rw [moved, if_pos rfl]
    next next moved => rw [moved, if_neg Bool.false_ne_true]
  · rfl

theorem skipToOnLine_step (target : UInt8) (c : σ) :
    skipToOnLine target c =
      if current c == target && !atEnd c then (true, c)
      else if current c == 0x0A then (false, c)
      else if (advance c).1 then skipToOnLine target (advance c).2
      else (false, (advance c).2) := by
  rw [skipToOnLine]
  split
  · rfl
  · split
    · rfl
    · split
      next next moved => rw [moved, if_pos rfl]
      next next moved => rw [moved, if_neg Bool.false_ne_true]

end

structure InStep {σ τ : Type} [Cursor σ] [Cursor τ] (Alike : σ → τ → Prop) : Prop where
  atEnd_eq : ∀ {c d}, Alike c d → atEnd c = atEnd d
  current_eq : ∀ {c d}, Alike c d → current c = current d
  advance : ∀ {c d}, Alike c d → Alike (advance c).2 (advance d).2

/-! ### The scanning loops that only move on -/

namespace InStep
variable {σ τ : Type} [Cursor σ] [Cursor τ] {Alike : σ → τ → Prop} {c : σ} {d : τ}

theorem fst_advance_eq (inStep : InStep Alike) (alike : Alike c d) :
    (Cursor.advance c).1 = (Cursor.advance d).1 := by
  rw [fst_advance, fst_advance, inStep.atEnd_eq (inStep.advance alike)]

theorem skipWhile (inStep : InStep Alike) (test : UInt8 → Bool) (alike : Alike c d) :
    Alike (skipWhile test c) (skipWhile test d) := by
  -- on the loop of the first cursor; what both show sends the second the same way
  fun_induction Cursor.skipWhile test c generalizing d with
  | case1 c passes next moved ih =>
    have more := inStep.fst_advance_eq alike
    have after := inStep.advance alike
    rw [moved] at more after
    rw [skipWhile_step test d, ← inStep.current_eq alike, if_pos passes, ← more, if_pos rfl]
    exact ih after
  | case2 c passes next moved =>
    have more := inStep.fst_advance_eq alike
    have after := inStep.advance alike
    rw [moved] at more after
    rw [skipWhile_step test d, ← inStep.current_eq alike, if_pos passes, ← more,
      if_neg (by simp)]
    exact after
  | case3 c stops =>
    rw [skipWhile_step test d, ← inStep.current_eq alike, if_neg stops]
    exact alike

theorem skipToOnLine (inStep : InStep Alike) (target : UInt8) (alike : Alike c d) :
    (skipToOnLine target c).1 = (skipToOnLine target d).1 ∧
      Alike (skipToOnLine target c).2 (skipToOnLine target d).2 := by
  have more := inStep.fst_advance_eq alike
  have after := inStep.advance alike
  fun_induction Cursor.skipToOnLine target c generalizing d with
  | case1 c found =>
    rw [skipToOnLine_step target d, ← inStep.current_eq alike, ← inStep.atEnd_eq alike,
      if_pos found]
    exact ⟨rfl, alike⟩
  | case2 c missing feed =>
    rw [skipToOnLine_step target d, ← inStep.current_eq alike, ← inStep.atEnd_eq alike,
      if_neg missing, if_pos feed]
    exact ⟨rfl, alike⟩
  | case3 c missing noFeed next moved ih =>
    rw [moved] at more after
    rw [skipToOnLine_step target d, ← inStep.current_eq alike, ← inStep.atEnd_eq alike,
      if_neg missing, if_neg noFeed, ← more, if_pos rfl]
    exact ih after (inStep.fst_advance_eq after) (inStep.advance after)
  | case4 c missing noFeed next moved =>
    rw [moved] at more after
    rw [skipToOnLine_step target d, ← inStep.current_eq alike, ← inStep.atEnd_eq alike,
      if_neg missing, if_neg noFeed, ← more, if_neg Bool.false_ne_true]
    exact ⟨rfl, after⟩

theorem takeUntil (inStep : InStep Alike) (stop : UInt8 → Bool) (taken : List UInt8)
    (alike : Alike c d) :
    (takeUntil stop taken c).1 = (takeUntil stop taken d).1 ∧
      Alike (takeUntil stop taken c).2 (takeUntil stop taken d).2 := by
  fun_induction Cursor.takeUntil stop taken c generalizing d with
  | case1 taken c ended =>
    rw [takeUntil.eq_def stop taken d, dif_pos (inStep.atEnd_eq alike ▸ ended)]
    exact ⟨rfl, alike⟩
  | case2 taken c within stops =>
    rw [takeUntil.eq_def stop taken d, dif_neg (inStep.atEnd_eq alike ▸ within),
      ← inStep.current_eq alike, if_pos stops]
    exact ⟨rfl, alike⟩
  | case3 taken c within going ih =>
    rw [takeUntil.eq_def stop taken d, dif_neg (inStep.atEnd_eq alike ▸ within),
      ← inStep.current_eq alike, if_neg going]
    exact ih (inStep.advance alike)

theorem readUntil (inStep : InStep Alike) (stop : UInt8 → Bool) (alike : Alike c d) :
    (readUntil stop c).1 = (readUntil stop d).1 ∧
      Alike (readUntil stop c).2 (readUntil stop d).2 := by
  obtain ⟨same, after⟩ := inStep.takeUntil stop [] alike
  exact ⟨congrArg List.reverse same, after⟩

end InStep

/-- Cursors of two kinds that show the same, and go on doing so after the same moves. -/
structure Simulation (σ τ : Type) [Cursor σ] [Cursor τ] where
  Alike : σ → τ → Prop
  SamePlace : Mark σ → Mark τ → Prop
  atEnd_eq : ∀ ⦃c d⦄, Alike c d → atEnd c = atEnd d
  current_eq : ∀ ⦃c d⦄, Alike c d → current c = current d
  sentinel_eq : ∀ ⦃c d⦄, Alike c d → sentinel c = sentinel d
  alike_advance : ∀ ⦃c d⦄, Alike c d → Alike (advance c).2 (advance d).2
  fst_peek : ∀ (n : Nat) ⦃c d⦄, Alike c d → (peek n c).1 = (peek n d).1
  alike_peek : ∀ (n : Nat) ⦃c d⦄, Alike c d → Alike (peek n c).2 (peek n d).2
  samePlace_mark : ∀ ⦃c d⦄, Alike c d → SamePlace (mark c) (mark d)
  alike_restore : ∀ ⦃p q c d⦄, SamePlace p q → Alike c d → Alike (restore p c) (restore q d)

namespace Simulation

variable {σ τ : Type} [Cursor σ] [Cursor τ]

def Keeps (sim : Simulation σ τ) (move : σ → σ) (other : τ → τ) : Prop :=
  ∀ ⦃c d⦄, sim.Alike c d → sim.Alike (move c) (other d)

/-- Two readers that find the same on cursors that are alike, and keep them alike. -/
def Respects (sim : Simulation σ τ) {α : Type} (read : σ → α × σ) (other : τ → α × τ) : Prop :=
  ∀ ⦃c d⦄, sim.Alike c d → (read c).1 = (other d).1 ∧ sim.Alike (read c).2 (other d).2

def Agrees (sim : Simulation σ τ) {α : Type} (test : σ → α) (other : τ → α) : Prop :=
  ∀ ⦃c d⦄, sim.Alike c d → test c = other d

variable {sim : Simulation σ τ} {α β : Type}

namespace Respects

theorem pure (value : α) : sim.Respects (fun c => (value, c)) (fun d => (value, d)) :=
  fun _ _ alike => ⟨rfl, alike⟩

theorem bind {read : σ → α × σ} {other : τ → α × τ} {more : α → σ → β × σ}
    {otherMore : α → τ → β × τ} (first : sim.Respects read other)
    (second : ∀ value, sim.Respects (more value) (otherMore value)) :
    sim.Respects (fun c => more (read c).1 (read c).2)
      (fun d => otherMore (other d).1 (other d).2) := by
  intro c d alike
  obtain ⟨same, after⟩ := first alike
  simp only [← same]
  exact second _ after

theorem map {read : σ → α × σ} {other : τ → α × τ} (first : sim.Respects read other)
    (f : α → β) :
    sim.Respects (fun c => (f (read c).1, (read c).2)) (fun d => (f (other d).1, (other d).2)) :=
  first.bind fun value => pure (f value)

theorem after {read : σ → α × σ} {other : τ → α × τ} {move : σ → σ} {otherMove : τ → τ}
    (second : sim.Respects read other) (first : sim.Keeps move otherMove) :
    sim.Respects (fun c => read (move c)) (fun d => other (otherMove d)) :=
  fun _ _ alike => second (first alike)

theorem andThen {read : σ → α × σ} {other : τ → α × τ} {move : σ → σ} {otherMove : τ → τ}
    (first : sim.Respects read other) (second : sim.Keeps move otherMove) :
    sim.Respects (fun c => ((read c).1, move (read c).2))
      (fun d => ((other d).1, otherMove (other d).2)) :=
  fun _ _ alike => ⟨(first alike).1, second (first alike).2⟩

theorem branch {test : σ → Bool} {otherTest : τ → Bool} {yes no : σ → α × σ}
    {otherYes otherNo : τ → α × τ} (same : sim.Agrees test otherTest)
    (first : sim.Respects yes otherYes) (second : sim.Respects no otherNo) :
    sim.Respects (fun c => if test c then yes c else no c)
      (fun d => if otherTest d then otherYes d else otherNo d) := by
  intro c d alike
  simp only [same alike]
  split
  · exact first alike
  · exact second alike

theorem ite (test : Bool) {yes no : σ → α × σ} {otherYes otherNo : τ → α × τ}
    (first : sim.Respects yes otherYes) (second : sim.Respects no otherNo) :
    sim.Respects (fun c => if test then yes c else no c)
      (fun d => if test then otherYes d else otherNo d) :=
  branch (fun _ _ _ => rfl) first second

theorem bindKeeps {read : σ → α × σ} {other : τ → α × τ} {move : α → σ → σ}
    {otherMove : α → τ → τ} (first : sim.Respects read other)
    (second : ∀ value, sim.Keeps (move value) (otherMove value)) :
    sim.Keeps (fun c => move (read c).1 (read c).2)
      (fun d => otherMove (other d).1 (other d).2) := by
  intro c d alike
  obtain ⟨same, after⟩ := first alike
  simp only [← same]
  exact second _ after

end Respects

theorem Keeps.branch {test : σ → Bool} {otherTest : τ → Bool} {yes no : σ → σ}
    {otherYes otherNo : τ → τ} (same : sim.Agrees test otherTest)
    (first : sim.Keeps yes otherYes) (second : sim.Keeps no otherNo) :
    sim.Keeps (fun c => if test c then yes c else no c)
      (fun d => if otherTest d then otherYes d else otherNo d) := by
  intro c d alike
  simp only [same alike]
  split
  · exact first alike
  · exact second alike

theorem Keeps.andThen {first second : σ → σ} {otherFirst otherSecond : τ → τ}
    (one : sim.Keeps first otherFirst) (two : sim.Keeps second otherSecond) :
    sim.Keeps (fun c => second (first c)) (fun d => otherSecond (otherFirst d)) :=
  fun _ _ alike => two (one alike)

variable (sim)

theorem keeps_id : sim.Keeps id id := fun _ _ alike => alike

theorem agrees_current (test : UInt8 → Bool) :
    sim.Agrees (fun c => test (current c)) (fun d => test (current d)) :=
  fun _ _ alike => congrArg test (sim.current_eq alike)

theorem inStep : InStep sim.Alike where
  atEnd_eq alike := sim.atEnd_eq alike
  current_eq alike := sim.current_eq alike
  advance alike := sim.alike_advance alike

theorem fst_advance_eq {c : σ} {d : τ} (alike : sim.Alike c d) :
    (advance c).1 = (advance d).1 :=
  sim.inStep.fst_advance_eq alike

theorem keeps_advance : sim.Keeps (fun c => (advance c).2) (fun d => (advance d).2) :=
  sim.alike_advance

theorem respects_advance : sim.Respects advance advance :=
  fun _ _ alike => ⟨sim.fst_advance_eq alike, sim.alike_advance alike⟩

theorem respects_peek (n : Nat) : sim.Respects (peek n) (peek n) :=
  fun _ _ alike => ⟨sim.fst_peek n alike, sim.alike_peek n alike⟩

/-! ### The scanning loops -/

theorem keeps_skipWhile (test : UInt8 → Bool) :
    sim.Keeps (skipWhile test) (skipWhile test) :=
  fun _ _ alike => sim.inStep.skipWhile test alike

theorem respects_skipToOnLine (target : UInt8) :
    sim.Respects (skipToOnLine target) (skipToOnLine target) :=
  fun _ _ alike => sim.inStep.skipToOnLine target alike

theorem respects_readUntil (stop : UInt8 → Bool) :
    sim.Respects (readUntil stop) (readUntil stop) :=
  fun _ _ alike => sim.inStep.readUntil stop alike

def SameLast (last : Option (List UInt8 × Mark σ)) (other : Option (List UInt8 × Mark τ)) : Prop :=
  Option.Rel (fun found otherFound =>
    found.1 = otherFound.1 ∧ sim.SamePlace found.2 otherFound.2) last other

theorem alike_takeLine (target : UInt8) (taken : List UInt8) {last : Option (List UInt8 × Mark σ)}
    {otherLast : Option (List UInt8 × Mark τ)} (same : sim.SameLast last otherLast) {c : σ} {d : τ}
    (alike : sim.Alike c d) :
    sim.SameLast (takeLine target taken last c).1 (takeLine target taken otherLast d).1 ∧
      sim.Alike (takeLine target taken last c).2 (takeLine target taken otherLast d).2 := by
  fun_induction takeLine target taken last c generalizing otherLast d with
  | case1 taken last c ended =>
    rw [takeLine.eq_def target taken otherLast d, dif_pos (sim.atEnd_eq alike ▸ ended)]
    exact ⟨same, alike⟩
  | case2 taken last c within feed =>
    rw [takeLine.eq_def target taken otherLast d, dif_neg (sim.atEnd_eq alike ▸ within),
      ← sim.current_eq alike, if_pos feed]
    exact ⟨same, alike⟩
  | case3 taken last c within noFeed ih =>
    rw [takeLine.eq_def target taken otherLast d, dif_neg (sim.atEnd_eq alike ▸ within),
      ← sim.current_eq alike, if_neg noFeed]
    apply ih _ (sim.alike_advance alike)
    split
    · exact .some ⟨rfl, sim.samePlace_mark alike⟩
    · exact same

theorem respects_readUntilLastOnLine (target : UInt8) :
    sim.Respects (readUntilLastOnLine target) (readUntilLastOnLine target) := by
  intro c d alike
  have line := sim.alike_takeLine target [] .none alike
  unfold readUntilLastOnLine
  revert line
  cases takeLine target [] none c with
  | mk last after =>
    cases takeLine target [] none d with
    | mk otherLast otherAfter =>
      rintro ⟨same, after⟩
      cases same with
      | none => exact ⟨rfl, sim.alike_restore (sim.samePlace_mark alike) after⟩
      | some found => exact ⟨congrArg List.reverse found.1, sim.alike_restore found.2 after⟩

/-! ### Integers -/

theorem respects_readDigits (radix value : Nat) :
    sim.Respects (readDigits radix value) (readDigits radix value) := by
  intro c d alike
  fun_induction readDigits radix value c generalizing d with
  | case1 value c ended =>
    rw [readDigits.eq_def radix value d, dif_pos (sim.atEnd_eq alike ▸ ended)]
    exact ⟨rfl, alike⟩
  | case2 value c within digit found ih =>
    rw [readDigits.eq_def radix value d, dif_neg (sim.atEnd_eq alike ▸ within),
      ← sim.current_eq alike, found]
    exact ih (sim.alike_advance alike)
  | case3 value c within none =>
    rw [readDigits.eq_def radix value d, dif_neg (sim.atEnd_eq alike ▸ within),
      ← sim.current_eq alike, none]
    exact ⟨rfl, alike⟩

theorem respects_atHexLiteral : sim.Respects atHexLiteral atHexLiteral := by
  have third := (sim.respects_peek 2).map isHexDigit
  have second := (sim.respects_peek 1).bind fun b =>
    Respects.ite (b == 0x78 || b == 0x58) third (.pure false)
  exact .branch (sim.agrees_current (· == 0x30)) second (.pure false)

theorem respects_readMagnitude : sim.Respects readMagnitude readMagnitude := by
  have hex := ((sim.respects_readDigits 16 0).after sim.keeps_advance).after sim.keeps_advance
  have decimal := sim.respects_readDigits 10 0
  intro c d alike
  obtain ⟨same, after⟩ := sim.respects_atHexLiteral alike
  unfold readMagnitude
  revert same after
  cases atHexLiteral c with
  | mk found next =>
    cases atHexLiteral d with
    | mk otherFound otherNext =>
      rintro rfl after
      cases found with
      | true => exact hex after
      | false => exact decimal after

theorem respects_readUnsigned : sim.Respects readUnsigned readUnsigned :=
  .branch (sim.agrees_current isDigitByte)
    (sim.respects_readMagnitude.map fun n => if n < 0x8000000000000000 then some n else none)
    (.pure none)

theorem keeps_skipSpaces : sim.Keeps skipSpaces skipSpaces :=
  sim.keeps_skipWhile isSpaceByte

theorem respects_readInt : sim.Respects readInt readInt := by
  have signed := Respects.branch (sim.agrees_current (· == 0x2D))
    ((sim.respects_readUnsigned.after sim.keeps_advance).map fun magnitude =>
      (magnitude.map fun n => -(n : Int)).getD absent)
    (sim.respects_readUnsigned.map fun magnitude =>
      (magnitude.map fun n => (n : Int)).getD absent)
  exact signed.after sim.keeps_skipSpaces

theorem respects_readInt32 : sim.Respects readInt32 readInt32 :=
  sim.respects_readInt.map fun value =>
    if -0x80000000 ≤ value ∧ value < 0x80000000 then value else absent

end Simulation

end ProfileTrace.Cursor

namespace ProfileTrace.StreamCursor
open Cursor

theorem sentinel_settle (c : StreamCursor) : c.settle.sentinel = c.sentinel :=
  settle_eq c ▸ sentinel_ensure 0 c

theorem sentinel_goTo (place : Nat) (c : StreamCursor) : (c.goTo place).sentinel = c.sentinel := by
  unfold goTo
  split
  · exact sentinel_settle _
  · split
    · exact sentinel_settle _
    · split
      · exact sentinel_fillTo _ _
      · rfl

theorem Settled.advance {content : List UInt8} {c : StreamCursor} (settled : Settled content c) :
    Settled content (Cursor.advance c).2 := by
  have skipped := settled.toRemembers.skip 1
  exact .of_shows (skipped.ensure 0) (Shows.of_ensure skipped.toReflects)

theorem Settled.peek {content : List UInt8} {c : StreamCursor} (settled : Settled content c)
    (ahead : Nat) : Settled content (Cursor.peek ahead c).2 := by
  refine ⟨settled.toRemembers.ensure ahead, ?_⟩
  intro none
  have nothing : c.unread = [] := List.prefix_nil.mp (none ▸ unread_fetched_ensure ahead c)
  change content.drop (c.ensure ahead).2.position = []
  rw [position_ensure]
  exact settled.settled nothing

/-- A cursor over a source that never fails behaves as one over the whole text of the source,
at the same place. -/
def simulation (content : List UInt8) : Simulation StreamCursor TextCursor where
  Alike c t := Settled content c ∧ t = c.overText content
  SamePlace place other := other = ⟨place, content.drop place⟩
  atEnd_eq := by
    rintro c _ ⟨settled, rfl⟩
    exact settled.toShows.atEnd_eq
  current_eq := by
    rintro c _ ⟨settled, rfl⟩
    exact settled.toShows.current_eq
  sentinel_eq := by
    rintro c _ ⟨settled, rfl⟩
    rfl
  alike_advance := by
    rintro c _ ⟨settled, rfl⟩
    exact ⟨settled.advance, settled.toShows.overText_advance.symm⟩
  fst_peek := by
    rintro ahead c _ ⟨settled, rfl⟩
    exact settled.toReflects.fst_peek ahead
  alike_peek := by
    rintro ahead c _ ⟨settled, rfl⟩
    exact ⟨settled.peek ahead, (overText_peek ahead c).symm⟩
  samePlace_mark := by
    rintro c _ ⟨settled, rfl⟩
    rfl
  alike_restore := by
    rintro place _ c _ rfl ⟨settled, rfl⟩
    obtain ⟨there, moved⟩ := settled.goTo place
    refine ⟨there, ?_⟩
    change _ = (⟨content.drop (c.goTo place).position, (c.goTo place).position,
      (c.goTo place).sentinel⟩ : TextCursor)
    rw [moved, sentinel_goTo]
    rfl

end ProfileTrace.StreamCursor
