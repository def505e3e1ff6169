import ProfileTrace.Proofs.Cursor.Unseekable

/-! The end of a source as a cursor meets it. A cursor whose seeks work shows no byte only after
its source has ended or failed, and from then on it stays as it is. Whatever it fetches, its window
ends no later than what the source can deliver. -/

namespace ProfileTrace

namespace Cursor
variable {σ : Type} [Cursor σ]

/-- What a cursor keeps in its single moves, when it comes back to allowed places only. -/
structure Invariant (σ : Type) [Cursor σ] where
  Holds : σ → Prop
  Allowed : Mark σ → Prop
  advance : ∀ {c}, Holds c → Holds (advance c).2
  peek : ∀ (n : Nat) {c}, Holds c → Holds (peek n c).2
  mark : ∀ {c}, Holds c → Allowed (mark c)
  restore : ∀ {place c}, Allowed place → Holds c → Holds (restore place c)

def Invariant.simulation (inv : Invariant σ) : Simulation σ σ where
  Alike c d := c = d ∧ inv.Holds c
  SamePlace place other := place = other ∧ inv.Allowed place
  atEnd_eq := by
    rintro c _ ⟨rfl, -⟩
    rfl
  current_eq := by
    rintro c _ ⟨rfl, -⟩
    rfl
  sentinel_eq := by
    rintro c _ ⟨rfl, -⟩
    rfl
  alike_advance := by
    rintro c _ ⟨rfl, holds⟩
    exact ⟨rfl, inv.advance holds⟩
  fst_peek := by
    rintro n c _ ⟨rfl, -⟩
    rfl
  alike_peek := by
    rintro n c _ ⟨rfl, holds⟩
    exact ⟨rfl, inv.peek n holds⟩
  samePlace_mark := by
    rintro c _ ⟨rfl, holds⟩
    exact ⟨rfl, inv.mark holds⟩
  alike_restore := by
    rintro place _ c _ ⟨rfl, allowed⟩ ⟨rfl, holds⟩
    exact ⟨rfl, inv.restore allowed holds⟩

theorem Invariant.holds_of_keeps (inv : Invariant σ) {move : σ → σ}
    (keeps : inv.simulation.Keeps move move) {c : σ} (holds : inv.Holds c) : inv.Holds (move c) :=
  (keeps ⟨rfl, holds⟩).2

theorem Invariant.holds_of_respects (inv : Invariant σ) {α : Type} {read : σ → α × σ}
    (respects : inv.simulation.Respects read read) {c : σ} (holds : inv.Holds c) :
    inv.Holds (read c).2 :=
  (respects ⟨rfl, holds⟩).2.2

end Cursor

theorem Reader.SameSource.deliverable_eq {reader after : Reader} (same : SameSource reader after) :
    after.deliverable = reader.deliverable := by
  obtain ⟨_, _, rfl⟩ := same
  rfl

theorem Reader.length_gather_le_deliverable (reader : Reader) (offset need space : Nat) :
    (reader.gather offset need space).bytes.length ≤ reader.deliverable.length - offset := by
  have bound := reader.calmed.length_gather offset need space
  rw [gather_calmed] at bound
  exact bound

theorem Reader.deliverable_le_of_ended {reader : Reader} (calm : reader.calmed.Faultless)
    {offset need space : Nat} (fits : need ≤ space)
    (ended : (reader.gather offset need space).ended = true) :
    reader.deliverable.length ≤ offset + (reader.gather offset need space).bytes.length := by
  have delivery : Delivers reader.calmed offset need (reader.calmed.gather offset need space) :=
    calm.delivers_gather fits
  rw [gather_calmed] at delivery
  have all : (reader.gather offset need space).bytes = reader.calmed.content.drop offset :=
    delivery.all ended
  rw [all, content_calmed, List.length_drop]
  omega

namespace StreamCursor
variable {source : Reader} {origin : Nat} {c : StreamCursor}

theorem ended_fillTo_of_nil {needed : Nat} (more : c.history.length < needed)
    (none : (c.fillTo needed).unread = []) : (c.fillTo needed).ended = true := by
  have before : c.unread = [] := List.prefix_nil.mp (none ▸ unread_fetched_fillTo needed c)
  have held : c.held = c.history.length := by rw [held, before, List.length_nil, Nat.add_zero]
  unfold fillTo at none ⊢
  split at none
  next ended => rwa [if_pos ended]
  next going =>
    have nothing := (List.append_eq_nil_iff.mp none).2
    rw [if_neg going]
    change (c.reader.gather _ _ _).ended = true
    rw [Reader.ended_gather, decide_eq_true_iff, nothing, List.length_nil, held]
    exact Nat.sub_pos_of_lt more

/-- The window is inside what the source delivers, unless the cursor began beyond it, and a source
that delivers all it can is taken for ended only when all of it was in the window. -/
structure Draws (source : Reader) (origin : Nat) (c : StreamCursor) : Prop where
  same : Reader.SameSource source c.reader
  room : 0 < c.capacity
  inside : c.edge ≤ max origin source.deliverable.length
  told : source.Attentive → c.ended = true → source.deliverable.length ≤ c.edge

structure Alert (source : Reader) (origin : Nat) (c : StreamCursor) : Prop extends
    Draws source origin c where
  last : c.unread = [] → c.ended = true

namespace Draws

theorem fillTo (draws : Draws source origin c) {needed : Nat} (fits : needed ≤ c.capacity) :
    Draws source origin (c.fillTo needed) := by
  obtain ⟨same, room, inside, told⟩ := draws
  unfold StreamCursor.fillTo
  split
  · exact ⟨same, room, inside, told⟩
  · have bound := c.reader.length_gather_le_deliverable (c.position + c.unread.length)
      (needed - c.held) (c.capacity - c.held)
    have later := c.reader.sameSource_gather (c.position + c.unread.length) (needed - c.held)
      (c.capacity - c.held)
    rw [same.deliverable_eq] at bound
    refine ⟨same.trans later, room, ?_, fun attentive ended => ?_⟩
    · simp only [edge, List.length_append] at inside ⊢
      omega
    · have whole := Reader.deliverable_le_of_ended (same.calmed attentive.calmed)
        (Nat.sub_le_sub_right fits c.held) ended
      rw [same.deliverable_eq] at whole
      simp only [edge, List.length_append]
      omega

theorem widened (draws : Draws source origin c) (ahead : Nat) :
    Draws source origin (c.widened ahead) := by
  obtain ⟨same, room, inside, told⟩ := draws
  exact ⟨same, Nat.lt_of_lt_of_le room (Nat.le_max_left _ _), inside, told⟩

theorem skip (draws : Draws source origin c) (count : Nat) :
    Draws source origin (c.skip count) := by
  obtain ⟨same, room, inside, told⟩ := draws
  refine ⟨same, room, ?_, ?_⟩
  · rwa [edge_skip]
  · rwa [edge_skip]

theorem unskip (draws : Draws source origin c) {count : Nat} (bound : count ≤ c.position) :
    Draws source origin (c.unskip count bound) := by
  obtain ⟨same, room, inside, told⟩ := draws
  refine ⟨same, room, ?_, ?_⟩
  · rwa [edge_unskip]
  · rwa [edge_unskip]

theorem alert_ensure (draws : Draws source origin c) : Alert source origin (c.ensure 0).2 := by
  rcases ensure_cases 0 c with ⟨same, there⟩ | filling
  · rw [same]
    refine ⟨draws, fun none => ?_⟩
    rcases there with available | ended
    · exact absurd none available
    · exact ended
  · rw [filling]
    exact ⟨(draws.widened 0).fillTo (Nat.le_max_right _ _),
      ended_fillTo_of_nil (Nat.lt_succ_self _)⟩

theorem alert_settle (draws : Draws source origin c) : Alert source origin c.settle :=
  settle_eq c ▸ draws.alert_ensure

end Draws

namespace Alert

theorem peek (alert : Alert source origin c) (ahead : Nat) :
    Alert source origin (c.ensure ahead).2 := by
  rcases ensure_cases ahead c with ⟨same, -⟩ | filling
  · rwa [same]
  · rw [filling]
    refine ⟨(alert.toDraws.widened ahead).fillTo (Nat.le_max_right _ _), ended_fillTo_of_nil ?_⟩
    exact Nat.lt_succ_of_le (Nat.le_add_right _ _)

theorem goTo (alert : Alert source origin c) (seeks : source.canSeek = true) {place : Nat}
    (allowed : place ≤ max origin source.deliverable.length) :
    Alert source origin (c.goTo place) := by
  have still : c.reader.canSeek = true := by
    obtain ⟨_, _, same⟩ := alert.same
    rw [same]
    exact seeks
  unfold StreamCursor.goTo
  rw [if_pos still]
  split
  · exact (alert.toDraws.unskip _).alert_settle
  · split
    · exact (alert.toDraws.skip _).alert_settle
    · have fresh : Draws source origin { c with
          position := place, history := [], unread := [], ended := false, within := by simp } :=
        ⟨alert.same, alert.room, allowed, fun _ ended => absurd ended Bool.false_ne_true⟩
      exact ⟨fresh.fillTo alert.room, ended_fillTo_of_nil Nat.one_pos⟩

theorem advance_eq (alert : Alert source origin c) (none : c.unread = []) :
    Cursor.advance c = (false, c) := by
  have still : c.skip 1 = c := by
    cases c
    cases none
    simp [skip]
  have same : (c.ensure 0).2 = c := ensure_of_ended (alert.last none)
  refine Prod.ext ?_ ?_
  · change ((c.skip 1).ensure 0).1 = false
    rw [still, fst_ensure, same, none]
    rfl
  · change ((c.skip 1).ensure 0).2 = c
    rw [still, same]

end Alert

/-- A cursor whose seeks work meets the end of its source whenever it has nothing to show. -/
def alertness (origin : Nat) (seeks : source.canSeek = true) : Cursor.Invariant StreamCursor where
  Holds := Alert source origin
  Allowed (place : Nat) := place ≤ max origin source.deliverable.length
  advance alert := (alert.toDraws.skip 1).alert_ensure
  peek ahead _ alert := alert.peek ahead
  mark alert := Nat.le_trans (Nat.le_add_right _ _) alert.inside
  restore allowed alert := alert.goTo seeks allowed

theorem alert_ofReader (source : Reader) (capacity : Nat) (sentinel : UInt8) :
    Alert source (ofReader source capacity sentinel).position
      (ofReader source capacity sentinel) := by
  have room : 0 < max capacity leastCapacity :=
    Nat.lt_of_lt_of_le (by decide) (Nat.le_max_right _ _)
  unfold ofReader
  rw [position_fillTo]
  refine ⟨Draws.fillTo ?_ room, ended_fillTo_of_nil Nat.one_pos⟩
  refine ⟨.refl source, room, ?_, fun attentive ended => ?_⟩
  · exact Nat.le_max_left _ _
  · have tells : (!source.canTell) = true := ended
    rw [attentive.canTell] at tells
    exact absurd tells Bool.false_ne_true

end StreamCursor

end ProfileTrace
