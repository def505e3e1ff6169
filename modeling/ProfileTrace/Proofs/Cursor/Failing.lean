import ProfileTrace.Proofs.Cursor.Simulation

/-! A source that fails from an offset on, beside one that has only the bytes before that offset.
A cursor shows the same over both, since it counts a source that fails as ended, and only the
fault that it keeps tells them apart. No seek loses that fault, and it comes before the end
shows. -/

namespace ProfileTrace

namespace Reader

def deliverable (reader : Reader) : List UInt8 :=
  match reader.failsFrom with
  | none => reader.content
  | some limit => reader.content.take limit

def calmed (reader : Reader) : Reader :=
  { reader with bytes := ⟨reader.deliverable.toArray⟩, failsFrom := none }

def Outcome.calmed : Outcome → Outcome
  | .interrupted => .interrupted
  | .failed => .delivered []
  | .delivered bytes => .delivered bytes

def Delivery.calmed (delivery : Delivery) : Delivery :=
  { delivery with reader := delivery.reader.calmed, failed := false }

def fails (reader : Reader) : Bool := reader.failsFrom.any (· ≤ reader.content.length)

variable {reader : Reader}

@[simp] theorem content_calmed (reader : Reader) : reader.calmed.content = reader.deliverable := rfl

theorem slice_calmed (reader : Reader) (offset count : Nat) :
    slice reader.calmed.bytes offset count =
      slice reader.bytes offset
        ((reader.failsFrom.map fun limit => min count (limit - offset)).getD count) := by
  have bytes : reader.calmed.bytes.data.toList = reader.deliverable := rfl
  rw [slice_eq, slice_eq, bytes, deliverable]
  cases reader.failsFrom with
  | none => rfl
  | some limit =>
    have whole : reader.content = reader.bytes.data.toList := rfl
    simp only [Option.map_some, Option.getD_some]
    rw [List.drop_take, List.take_take, whole]

theorem slice_of_failing {offset : Nat} (failing : reader.failsFrom.any (· ≤ offset) = true)
    (count : Nat) : slice reader.calmed.bytes offset count = [] := by
  rw [slice_calmed]
  cases found : reader.failsFrom with
  | none => simp [found] at failing
  | some limit =>
    have none : min count (limit - offset) = 0 := by
      simp only [found, Option.any_some, decide_eq_true_eq] at failing
      omega
    rw [Option.map_some, Option.getD_some, none, slice_eq, List.take_zero]

theorem read_calmed (reader : Reader) (offset space : Nat) :
    reader.calmed.read offset space =
      ((reader.read offset space).1.calmed, (reader.read offset space).2.calmed) := by
  by_cases waiting : 0 < reader.pending
  · have also : 0 < reader.calmed.pending := waiting
    rw [read, read, if_pos waiting, if_pos also]
    rfl
  · have also : ¬0 < reader.calmed.pending := waiting
    have never : ¬reader.calmed.failsFrom.any (· ≤ offset) = true := Bool.false_ne_true
    rw [read, read, if_neg waiting, if_neg also, if_neg never]
    let answer := fun taken => (Outcome.delivered taken, reader.nextTurn.calmed)
    by_cases failing : reader.failsFrom.any (· ≤ offset) = true
    · rw [if_pos failing]
      exact congrArg answer (slice_of_failing failing _)
    · rw [if_neg failing]
      exact congrArg answer (slice_calmed reader offset _)

theorem gather_zero (reader : Reader) (offset space : Nat) :
    reader.gather offset 0 space = { bytes := [], reader, ended := false, failed := false } := by
  rw [gather, if_pos rfl]

theorem gather_interrupted {after : Reader} {offset need space : Nat} (some : need ≠ 0)
    (found : reader.read offset space = (.interrupted, after)) :
    reader.gather offset need space = after.gather offset need space := by
  rw [gather, if_neg some]
  split <;> simp_all

theorem gather_failed {after : Reader} {offset need space : Nat} (some : need ≠ 0)
    (found : reader.read offset space = (.failed, after)) :
    reader.gather offset need space =
      { bytes := [], reader := after, ended := true, failed := true } := by
  rw [gather, if_neg some]
  split <;> simp_all

theorem gather_delivered {after : Reader} {offset need space : Nat} {bytes : List UInt8}
    (some : need ≠ 0) (found : reader.read offset space = (.delivered bytes, after)) :
    reader.gather offset need space =
      if bytes.length = 0 then { bytes := [], reader := after, ended := true, failed := false }
      else
        let more := after.gather (offset + bytes.length) (need - bytes.length)
          (space - bytes.length)
        { more with bytes := bytes ++ more.bytes } := by
  rw [gather, if_neg some]
  split <;> simp_all

theorem gather_calmed (reader : Reader) (offset need space : Nat) :
    reader.calmed.gather offset need space = (reader.gather offset need space).calmed := by
  fun_induction gather reader offset need space with
  | case1 reader offset space => exact gather_zero _ _ _
  | case2 reader offset need space some after found ih =>
    have read := read_calmed reader offset space
    rw [found] at read
    rw [gather_interrupted some read, ih]
  | case3 reader offset need space some after found =>
    have read := read_calmed reader offset space
    rw [found] at read
    rw [gather_delivered some read]
    rfl
  | case4 reader offset need space some bytes after found empty =>
    have read := read_calmed reader offset space
    rw [found] at read
    rw [gather_delivered some read, if_pos empty]
    rfl
  | case5 reader offset need space some bytes after found nonempty more ih =>
    have read := read_calmed reader offset space
    rw [found] at read
    rw [gather_delivered some read, if_neg nonempty]
    simp only [ih]
    rfl

/-- A source that can tell and go to its place, and each of whose reads brings something until
it fails or has ended. -/
structure Attentive (reader : Reader) : Prop where
  canTell : reader.canTell = true
  canSeek : reader.canSeek = true
  delivers : ∀ turn, (reader.pace turn).most ≠ some 0

theorem attentive_slow (bytes : List UInt8) (start limit : Nat) :
    Attentive { slow bytes start with failsFrom := some limit } where
  canTell := rfl
  canSeek := rfl
  delivers := most_slow bytes start

theorem Attentive.calmed (attentive : reader.Attentive) : reader.calmed.Faultless where
  noFailure := rfl
  canTell := attentive.canTell
  delivers := attentive.delivers

theorem deliverable_of_not_fails (sound : reader.fails = false) :
    reader.deliverable = reader.content := by
  unfold fails at sound
  unfold deliverable
  cases limit : reader.failsFrom with
  | none => rfl
  | some limit' =>
    simp only [limit, Option.any_some, decide_eq_false_iff_not] at sound
    exact List.take_of_length_le (Nat.le_of_not_le sound)

def SameSource (reader after : Reader) : Prop :=
  ∃ turn pending, after = { reader with turn, pending }

namespace SameSource
variable {between after : Reader}

theorem refl (reader : Reader) : SameSource reader reader := ⟨_, _, rfl⟩

theorem trans (first : SameSource reader between) (second : SameSource between after) :
    SameSource reader after := by
  obtain ⟨_, _, rfl⟩ := first
  obtain ⟨turn, pending, rfl⟩ := second
  exact ⟨turn, pending, rfl⟩

theorem attentive (same : SameSource reader after) (attentive : reader.Attentive) :
    after.Attentive := by
  obtain ⟨_, _, rfl⟩ := same
  exact ⟨attentive.canTell, attentive.canSeek, attentive.delivers⟩

theorem calmed (same : SameSource reader after) (calm : reader.calmed.Faultless) :
    after.calmed.Faultless := by
  obtain ⟨_, _, rfl⟩ := same
  exact ⟨rfl, calm.canTell, calm.delivers⟩

theorem content_eq (same : SameSource reader after) : after.content = reader.content := by
  obtain ⟨_, _, rfl⟩ := same
  rfl

theorem fails_eq (same : SameSource reader after) : after.fails = reader.fails := by
  obtain ⟨_, _, rfl⟩ := same
  rfl

theorem of_read {outcome : Outcome} {offset space : Nat}
    (found : reader.read offset space = (outcome, after)) : SameSource reader after := by
  unfold Reader.read at found
  split at found
  · cases found
    exact ⟨_, _, rfl⟩
  · split at found
    · cases found
      exact ⟨_, _, rfl⟩
    · cases found
      exact ⟨_, _, rfl⟩

end SameSource

theorem sameSource_gather (reader : Reader) (offset need space : Nat) :
    SameSource reader (reader.gather offset need space).reader := by
  fun_induction gather reader offset need space with
  | case1 reader offset space => exact .refl reader
  | case2 reader offset need space some after found ih => exact (SameSource.of_read found).trans ih
  | case3 reader offset need space some after found => exact .of_read found
  | case4 reader offset need space some bytes after found empty => exact .of_read found
  | case5 reader offset need space some bytes after found nonempty more ih =>
    exact (SameSource.of_read found).trans ih

theorem fails_of_failed {after : Reader} {offset space : Nat}
    (inside : offset ≤ reader.content.length)
    (found : reader.read offset space = (.failed, after)) : reader.fails = true := by
  unfold read at found
  split at found
  · cases found
  · split at found
    next failing =>
      unfold fails
      cases limited : reader.failsFrom with
      | none => simp [limited] at failing
      | some limit =>
        simp only [limited, Option.any_some, decide_eq_true_eq] at failing ⊢
        omega
    next => cases found

theorem not_fails_of_empty (calm : reader.calmed.Faultless) {after : Reader}
    {offset space : Nat} (room : 0 < space)
    (found : reader.read offset space = (.delivered [], after)) : reader.fails = false := by
  -- the other source brings nothing either, so that nothing of it is left
  have read := read_calmed reader offset space
  rw [found] at read
  obtain ⟨count, positive, taken⟩ := calm.delivered room read
  have last : reader.deliverable.length ≤ offset := by
    rcases List.take_eq_nil_iff.mp taken.symm with zero | none
    · omega
    · exact List.drop_eq_nil_iff.mp none
  have going : reader.failsFrom.any (· ≤ offset) = false := by
    unfold Reader.read at found
    split at found
    · cases found
    · split at found
      · cases found
      next going => simpa using going
  unfold fails
  unfold deliverable at last
  cases limited : reader.failsFrom with
  | none => rfl
  | some limit =>
    simp only [limited, Option.any_some, decide_eq_false_iff_not, List.length_take] at going last ⊢
    omega

theorem failed_gather (calm : reader.calmed.Faultless) {offset need space : Nat}
    (inside : offset ≤ reader.content.length) (fits : need ≤ space) :
    (reader.gather offset need space).failed =
      ((reader.gather offset need space).ended && reader.fails) := by
  fun_induction gather reader offset need space with
  | case1 reader offset space => rfl
  | case2 reader offset need space some after found ih =>
    have same := SameSource.of_read found
    rw [ih (same.calmed calm) (by rwa [same.content_eq]) fits, same.fails_eq]
  | case3 reader offset need space some after found =>
    rw [fails_of_failed inside found]
    rfl
  | case4 reader offset need space some bytes after found empty =>
    rw [List.length_eq_zero_iff.mp empty] at found
    rw [not_fails_of_empty calm (by omega) found]
    rfl
  | case5 reader offset need space some bytes after found nonempty more ih =>
    have same := SameSource.of_read found
    have size : reader.content.length = reader.bytes.size := rfl
    have short := length_of_delivered found
    rw [ih (same.calmed calm) (by rw [same.content_eq]; omega) (by omega), same.fails_eq]

end Reader

namespace StreamCursor
variable {c d : StreamCursor}

/-! ### The same cursor over what can be delivered -/

structure Mirrors (c d : StreamCursor) : Prop where
  reader : d.reader = c.reader.calmed
  position : d.position = c.position
  history : d.history = c.history
  unread : d.unread = c.unread
  capacity : d.capacity = c.capacity
  ended : d.ended = c.ended
  sentinel : d.sentinel = c.sentinel

namespace Mirrors

theorem fillTo (mirrors : Mirrors c d) (needed : Nat) :
    Mirrors (c.fillTo needed) (d.fillTo needed) := by
  have delivery : d.reader.gather (d.position + d.unread.length) (needed - d.held)
        (d.capacity - d.held) =
      (c.reader.gather (c.position + c.unread.length) (needed - c.held)
        (c.capacity - c.held)).calmed := by
    simp only [held, mirrors.reader, mirrors.position, mirrors.history, mirrors.unread,
      mirrors.capacity]
    exact Reader.gather_calmed _ _ _ _
  unfold StreamCursor.fillTo
  rw [mirrors.ended]
  split
  · exact mirrors
  · simp only [delivery]
    exact ⟨rfl, mirrors.position, mirrors.history, congrArg (· ++ _) mirrors.unread,
      mirrors.capacity, rfl, mirrors.sentinel⟩

theorem widened (mirrors : Mirrors c d) (ahead : Nat) :
    Mirrors (c.widened ahead) (d.widened ahead) := by
  obtain ⟨reader, position, history, unread, capacity, ended, sentinel⟩ := mirrors
  refine ⟨reader, position, congrArg (List.take historyLength) history, unread, ?_, ended, sentinel⟩
  simp only [StreamCursor.widened, slide, history, capacity]

theorem ensure (mirrors : Mirrors c d) (ahead : Nat) :
    Mirrors (c.ensure ahead).2 (d.ensure ahead).2 := by
  have needed : d.slide.history.length = c.slide.history.length := by
    simp only [slide, mirrors.history]
  by_cases missing : c.unread.drop ahead = []
  · have also : d.unread.drop ahead = [] := by rwa [mirrors.unread]
    cases going : c.ended with
    | true => rwa [ensure_of_ended going, ensure_of_ended (mirrors.ended.trans going)]
    | false =>
      rw [ensure_of_missing missing going, ensure_of_missing also (mirrors.ended.trans going),
        needed]
      exact (mirrors.widened ahead).fillTo _
  · have also : d.unread.drop ahead ≠ [] := by rwa [mirrors.unread]
    rwa [ensure_of_available missing, ensure_of_available also]

theorem fst_peek (mirrors : Mirrors c d) (ahead : Nat) :
    (Cursor.peek ahead c).1 = (Cursor.peek ahead d).1 := by
  have after := mirrors.ensure ahead
  change (if (c.ensure ahead).1 then
      ((c.ensure ahead).2.unread.drop ahead).headD (c.ensure ahead).2.sentinel
    else (c.ensure ahead).2.sentinel) = if (d.ensure ahead).1 then
      ((d.ensure ahead).2.unread.drop ahead).headD (d.ensure ahead).2.sentinel
    else (d.ensure ahead).2.sentinel
  rw [fst_ensure, fst_ensure, after.unread, after.sentinel]

theorem skip (mirrors : Mirrors c d) (count : Nat) : Mirrors (c.skip count) (d.skip count) := by
  obtain ⟨reader, position, history, unread, capacity, ended, sentinel⟩ := mirrors
  refine ⟨reader, ?_, ?_, congrArg (List.drop count) unread, capacity, ended, sentinel⟩
  · simp only [StreamCursor.skip, position, unread]
  · simp only [StreamCursor.skip, history, unread]

theorem unskip (mirrors : Mirrors c d) (place : Nat) :
    Mirrors (c.unskip (c.position - place) (Nat.sub_le _ _))
      (d.unskip (d.position - place) (Nat.sub_le _ _)) := by
  obtain ⟨reader, position, history, unread, capacity, ended, sentinel⟩ := mirrors
  refine ⟨reader, ?_, ?_, ?_, capacity, ended, sentinel⟩
  · simp only [StreamCursor.unskip, position, history]
  · simp only [StreamCursor.unskip, position, history]
  · simp only [StreamCursor.unskip, position, history, unread]

theorem settle (mirrors : Mirrors c d) : Mirrors c.settle d.settle := by
  rw [settle_eq, settle_eq]
  exact mirrors.ensure 0

theorem goTo (mirrors : Mirrors c d) (seeks : c.reader.canSeek = true) (place : Nat) :
    Mirrors (c.goTo place) (d.goTo place) := by
  have also : d.reader.canSeek = true := by rwa [mirrors.reader]
  unfold StreamCursor.goTo
  simp only [if_pos seeks, if_pos also]
  by_cases back : c.position - c.history.length ≤ place ∧ place ≤ c.position
  · have same : d.position - d.history.length ≤ place ∧ place ≤ d.position := by
      rwa [mirrors.position, mirrors.history]
    rw [dif_pos back, dif_pos same]
    exact (mirrors.unskip place).settle
  · have same : ¬(d.position - d.history.length ≤ place ∧ place ≤ d.position) := by
      rwa [mirrors.position, mirrors.history]
    rw [dif_neg back, dif_neg same, mirrors.position, mirrors.unread]
    split
    · exact (mirrors.skip _).settle
    · apply fillTo
      exact ⟨mirrors.reader, rfl, rfl, rfl, mirrors.capacity, rfl, mirrors.sentinel⟩

end Mirrors

/-! ### The fault -/

def faultOf (reader : Reader) : Option Fault := if reader.fails then some .readFailed else none

/-- The window lies inside the source, and the fault is kept from when the source has failed. -/
structure Watches (source : Reader) (c : StreamCursor) : Prop where
  same : Reader.SameSource source c.reader
  room : 0 < c.capacity
  inside : c.position + c.unread.length ≤ source.content.length
  quiet : c.fault = none ∨ c.fault = faultOf source
  told : c.ended = true → c.fault = faultOf source

structure Warned (source : Reader) (c : StreamCursor) : Prop extends Watches source c where
  last : c.unread = [] → c.ended = true

variable {source : Reader}

theorem Watches.fault_eq (watches : Watches source c) {failed ended : Bool}
    (when : failed = (ended && source.fails)) :
    (if failed then c.fault <|> some .readFailed else c.fault) =
      if ended then faultOf source else c.fault := by
  subst when
  have quiet := watches.quiet
  unfold faultOf at quiet ⊢
  cases ended with
  | false => rfl
  | true =>
    cases fails : source.fails with
    | false =>
      simp only [fails, Bool.false_eq_true, if_false, or_self] at quiet
      simp [quiet]
    | true =>
      simp only [fails, if_true] at quiet
      rcases quiet with quiet | quiet
      · simp [quiet]
      · simp [quiet]

theorem Watches.fillTo (watches : Watches source c) (calm : source.calmed.Faultless) {needed : Nat}
    (fits : needed ≤ c.capacity) :
    Watches source (c.fillTo needed) ∧
      ((c.fillTo needed).ended = false → needed ≤ (c.fillTo needed).held) := by
  have fault := @watches.fault_eq
  obtain ⟨same, room, inside, quiet, told⟩ := watches
  unfold StreamCursor.fillTo
  split
  next ended => exact ⟨⟨same, room, inside, quiet, told⟩, by simp [ended]⟩
  next going =>
    have space : needed - c.held ≤ c.capacity - c.held := by omega
    have content := same.content_eq
    have failed := Reader.failed_gather (same.calmed calm) (content ▸ inside) space
    have all := c.reader.ended_gather (c.position + c.unread.length) (needed - c.held)
      (c.capacity - c.held)
    have short := c.reader.length_gather (c.position + c.unread.length) (needed - c.held)
      (c.capacity - c.held)
    have later := c.reader.sameSource_gather (c.position + c.unread.length) (needed - c.held)
      (c.capacity - c.held)
    rw [same.fails_eq] at failed
    have size : c.reader.bytes.size = source.content.length := congrArg List.length content
    simp only [fault failed]
    refine ⟨⟨same.trans later, room, ?_, ?_, ?_⟩, ?_⟩
    · simp only [List.length_append]
      omega
    · split
      · exact .inr rfl
      · exact quiet
    · intro ended
      exact if_pos ended
    · intro more
      rw [all, decide_eq_false_iff_not] at more
      simp only [held, List.length_append] at more ⊢
      omega

theorem Watches.widened (watches : Watches source c) (ahead : Nat) :
    Watches source (c.widened ahead) := by
  obtain ⟨same, room, inside, quiet, told⟩ := watches
  exact ⟨same, Nat.lt_of_lt_of_le room (Nat.le_max_left _ _), inside, quiet, told⟩

theorem Watches.ensure (watches : Watches source c) (calm : source.calmed.Faultless) (ahead : Nat) :
    Watches source (c.ensure ahead).2 := by
  rcases ensure_cases ahead c with ⟨same, -⟩ | filling
  · rwa [same]
  · rw [filling]
    exact ((watches.widened ahead).fillTo calm (Nat.le_max_right _ _)).1

theorem Watches.skip (watches : Watches source c) (count : Nat) :
    Watches source (c.skip count) := by
  obtain ⟨same, room, inside, quiet, told⟩ := watches
  refine ⟨same, room, ?_, quiet, told⟩
  simp only [StreamCursor.skip, List.length_take, List.length_drop]
  omega

theorem Watches.unskip (watches : Watches source c) {count : Nat} (bound : count ≤ c.position) :
    Watches source (c.unskip count bound) := by
  obtain ⟨same, room, inside, quiet, told⟩ := watches
  refine ⟨same, room, ?_, quiet, told⟩
  simp only [StreamCursor.unskip, List.length_take, List.length_append, List.length_reverse]
  omega

theorem Watches.warned_fillTo (watches : Watches source c) (calm : source.calmed.Faultless)
    {needed : Nat} (fits : needed ≤ c.capacity) (more : c.history.length < needed) :
    Warned source (c.fillTo needed) := by
  obtain ⟨filled, enough⟩ := watches.fillTo calm fits
  refine ⟨filled, ?_⟩
  intro none
  cases going : (c.fillTo needed).ended with
  | true => rfl
  | false =>
    have enough := enough going
    simp only [held, history_fillTo, none, List.length_nil] at enough
    omega

theorem Watches.warned_of_fresh (watches : Watches source c) (calm : source.calmed.Faultless)
    (fresh : c.history = []) : Warned source (c.fillTo 1) :=
  watches.warned_fillTo calm watches.room (by simp [fresh])

theorem Watches.warned_ensure (watches : Watches source c) (calm : source.calmed.Faultless) :
    Warned source (c.ensure 0).2 := by
  rcases ensure_cases 0 c with ⟨same, there⟩ | filling
  · rw [same]
    refine ⟨watches, ?_⟩
    intro none
    rcases there with available | ended
    · exact absurd none available
    · exact ended
  · rw [filling]
    exact (watches.widened 0).warned_fillTo calm (Nat.le_max_right _ _) (Nat.lt_succ_self _)

theorem Watches.warned_settle (watches : Watches source c) (calm : source.calmed.Faultless) :
    Warned source c.settle :=
  settle_eq c ▸ watches.warned_ensure calm

theorem Warned.advance (warned : Warned source c) (calm : source.calmed.Faultless) :
    Warned source (Cursor.advance c).2 :=
  (warned.toWatches.skip 1).warned_ensure calm

theorem Warned.peek (warned : Warned source c) (calm : source.calmed.Faultless) (ahead : Nat) :
    Warned source (Cursor.peek ahead c).2 := by
  refine ⟨warned.toWatches.ensure calm ahead, ?_⟩
  intro none
  have nothing : c.unread = [] := List.prefix_nil.mp (none ▸ unread_fetched_ensure ahead c)
  have ended := warned.last nothing
  change (c.ensure ahead).2.ended = true
  rw [ensure_of_ended ended, ended]

theorem Warned.goTo (warned : Warned source c) (attentive : source.Attentive) {place : Nat}
    (inside : place ≤ source.content.length) : Warned source (c.goTo place) := by
  have seeks := (warned.same.attentive attentive).canSeek
  unfold StreamCursor.goTo
  simp only [if_pos seeks]
  split
  · exact (warned.toWatches.unskip _).warned_settle attentive.calmed
  · split
    · exact (warned.toWatches.skip _).warned_settle attentive.calmed
    · refine Watches.warned_of_fresh ?_ attentive.calmed rfl
      exact ⟨warned.same, warned.room, inside, warned.quiet, by simp⟩

/-- A cursor over a source that may fail behaves as one over the bytes that it can deliver. -/
def failing (attentive : source.Attentive) : Cursor.Simulation StreamCursor StreamCursor where
  Alike c d := Mirrors c d ∧ Warned source c
  SamePlace (place other : Nat) := place = other ∧ place ≤ source.content.length
  atEnd_eq := by
    rintro c d ⟨mirrors, warned⟩
    exact congrArg List.isEmpty mirrors.unread.symm
  current_eq := by
    rintro c d ⟨mirrors, warned⟩
    change c.unread.headD c.sentinel = d.unread.headD d.sentinel
    rw [mirrors.unread, mirrors.sentinel]
  sentinel_eq := by
    rintro c d ⟨mirrors, warned⟩
    exact mirrors.sentinel.symm
  alike_advance := by
    rintro c d ⟨mirrors, warned⟩
    exact ⟨(mirrors.skip 1).ensure 0, warned.advance attentive.calmed⟩
  fst_peek := by
    rintro ahead c d ⟨mirrors, warned⟩
    exact mirrors.fst_peek ahead
  alike_peek := by
    rintro ahead c d ⟨mirrors, warned⟩
    exact ⟨mirrors.ensure ahead, warned.peek attentive.calmed ahead⟩
  samePlace_mark := by
    rintro c d ⟨mirrors, warned⟩
    exact ⟨mirrors.position.symm, Nat.le_trans (Nat.le_add_right _ _) warned.inside⟩
  alike_restore := by
    rintro place _ c d ⟨rfl, inside⟩ ⟨mirrors, warned⟩
    have seeks := (warned.same.attentive attentive).canSeek
    exact ⟨mirrors.goTo seeks place, warned.goTo attentive inside⟩

theorem mirrors_ofReader (tells : source.canTell = true) (capacity : Nat) (sentinel : UInt8) :
    Mirrors (ofReader source capacity sentinel) (ofReader source.calmed capacity sentinel) := by
  have also : source.calmed.canTell = true := tells
  unfold ofReader
  simp only [tells, also]
  refine Mirrors.fillTo ?_ 1
  exact ⟨rfl, rfl, rfl, rfl, rfl, rfl, rfl⟩

theorem warned_ofReader (calm : source.calmed.Faultless)
    (inside : source.start ≤ source.content.length) (capacity : Nat) (sentinel : UInt8) :
    Warned source (ofReader source capacity sentinel) := by
  have tells : source.canTell = true := calm.canTell
  unfold ofReader
  simp only [tells]
  refine Watches.warned_of_fresh ?_ calm rfl
  have positive : 0 < max capacity leastCapacity :=
    Nat.lt_of_lt_of_le (by decide) (Nat.le_max_right _ _)
  exact ⟨.refl source, positive, by simpa using inside, .inl rfl, by simp⟩

theorem alike_ofReader (attentive : source.Attentive)
    (inside : source.start ≤ source.content.length) (capacity : Nat) (sentinel : UInt8) :
    (failing attentive).Alike (ofReader source capacity sentinel)
      (ofReader source.calmed capacity sentinel) :=
  ⟨mirrors_ofReader attentive.canTell capacity sentinel,
    warned_ofReader attentive.calmed inside capacity sentinel⟩

end StreamCursor

end ProfileTrace
