import Mathlib.Logic.Function.Iterate
import ProfileTrace.Proofs.Cursor.Ending
import ProfileTrace.Proofs.Record.Failing

/-! Records asked for one after the other. Each that is found moves the cursor on, and when none is
found the source has come to its end: whoever asks again gets no record again and finds everything
as it was. The calls give just the records that reading all at once gives, also when the refused
ones are stepped over. -/

namespace ProfileTrace
open Cursor

theorem Record.reaches_skipByteOrderMark {σ : Type} [Cursor σ] (c : σ) :
    Reaches c (skipByteOrderMark c) := by
  have second := reaches_peek 1 c
  have third := second.trans (reaches_peek 2 _)
  unfold skipByteOrderMark
  simp only
  split
  · split
    · split
      · exact third.trans <| (reaches_advance _).trans <| (reaches_advance _).trans
          (reaches_advance _)
      · exact third
    · exact second
  · exact Reaches.refl c

structure RecordReader (σ : Type) where
  cursor : σ
  /-- Whether any was. A byte order mark is stepped over before the first only. -/
  begun : Bool := false
  counts : RecordCounts := {}

namespace RecordReader
variable {σ : Type} [Cursor σ] (accepts : String → Bool)

def place (reader : RecordReader σ) : σ :=
  if reader.begun then reader.cursor else Record.skipByteOrderMark reader.cursor

def next (reader : RecordReader σ) : Option Record × RecordReader σ :=
  let (found, c) := Record.read? accepts reader.place
  (found, { cursor := c
            begun := true
            counts := (found.map fun record => reader.counts.merge record.counts).getD
              reader.counts })

def left (reader : RecordReader σ) : List Record := (Record.readAll accepts reader.place).1

variable {accepts} {reader after : RecordReader σ} {record : Record}

theorem reaches_place (reader : RecordReader σ) : Reaches reader.cursor reader.place := by
  unfold place
  split
  · exact Reaches.refl _
  · exact Record.reaches_skipByteOrderMark _

theorem read?_of_next {found : Option Record} (called : reader.next accepts = (found, after)) :
    Record.read? accepts reader.place = (found, after.cursor) := by
  unfold next at called
  simp only [Prod.mk.injEq] at called
  rw [← called.2]
  exact Prod.ext called.1 rfl

theorem begun_of_next {found : Option Record} (called : reader.next accepts = (found, after)) :
    after.begun = true := by
  unfold next at called
  simp only [Prod.mk.injEq] at called
  rw [← called.2]

theorem place_of_next {found : Option Record} (called : reader.next accepts = (found, after)) :
    after.place = after.cursor := by
  rw [place, if_pos (begun_of_next called)]

theorem position_lt_next (called : reader.next accepts = (some record, after)) :
    position reader.cursor < position after.cursor ∧
      limit after.cursor - position after.cursor < limit reader.cursor - position reader.cursor := by
  have read := read?_of_next called
  have less := Record.position_lt_read? read
  have limits := (Record.reaches_read? accepts reader.place).limit_eq
  rw [read] at limits
  have lower := (reaches_place reader).position_le
  have same := (reaches_place reader).limit_eq
  simp only at limits
  omega

def nextEvent (accepts : String → Bool) (reader : RecordReader σ) :
    Option Event × RecordReader σ :=
  match _found : reader.next accepts with
  | (none, after) => (none, after)
  | (some (.event event), after) => (some event, after)
  | (some .filtered, after) => after.nextEvent accepts
termination_by limit reader.cursor - position reader.cursor
decreasing_by exact (position_lt_next _found).2

theorem fst_next (reader : RecordReader σ) :
    (reader.next accepts).1 = (reader.left accepts).head? := by
  unfold next left
  cases found : Record.read? accepts reader.place with
  | mk first c =>
    cases first with
    | none => rw [Record.readAll_none found, List.head?_nil]
    | some record => rw [Record.readAll_some found, List.head?_cons]

theorem left_of_some (called : reader.next accepts = (some record, after)) :
    reader.left accepts = record :: after.left accepts := by
  unfold left
  rw [Record.readAll_some (read?_of_next called), place_of_next called]

theorem fst_step_iterate {state α : Type} (step : state → Option α × state)
    (list : state → List α) (Holds : state → Prop) (keeps : ∀ s, Holds s → Holds (step s).2)
    (first : ∀ s, Holds s → (step s).1 = (list s).head?)
    (others : ∀ s, Holds s → list (step s).2 = (list s).tail) (n : Nat) {s : state}
    (holds : Holds s) : (step ((fun s => (step s).2)^[n] s)).1 = (list s)[n]? := by
  induction n generalizing s with
  | zero => rw [Function.iterate_zero_apply, first s holds, List.head?_eq_getElem?]
  | succ n ih =>
    rw [Function.iterate_succ_apply, ih (keeps s holds), others s holds, List.getElem?_tail]

end RecordReader

/-! ### Records of a source -/

namespace StreamCursor
variable {source : Reader} {origin : Nat} {c : StreamCursor}

theorem Alert.skipWhile_eq (alert : Alert source origin c) (none : c.unread = [])
    (test : UInt8 → Bool) : skipWhile test c = c := by
  rw [skipWhile_step, alert.advance_eq none]
  simp

/-- Where a cursor has nothing to show, no record is found and the cursor is left as it is. -/
theorem Alert.read?_eq (alert : Alert source origin c) (none : c.unread = [])
    (accepts : String → Bool) : Record.read? accepts c = (Option.none, c) := by
  have stays : skipWhitespace c = c := alert.skipWhile_eq none _
  have ended : Cursor.atEnd c = true := List.isEmpty_iff.mpr none
  simp only [Record.read?, stays, ended, if_true]

end StreamCursor

namespace RecordReader
open StreamCursor

variable {accepts : String → Bool} {source : Reader} {origin : Nat}
  {reader after : RecordReader StreamCursor}

def IsAlert (source : Reader) (origin : Nat) (reader : RecordReader StreamCursor) : Prop :=
  Alert source origin reader.cursor

theorem IsAlert.place (alert : IsAlert source origin reader) (seeks : source.canSeek = true) :
    Alert source origin reader.place := by
  unfold RecordReader.place
  split
  · exact alert
  · exact (alertness origin seeks).holds_of_keeps (Record.keeps_skipByteOrderMark _) alert

theorem IsAlert.next (alert : IsAlert source origin reader) (seeks : source.canSeek = true)
    (accepts : String → Bool) : IsAlert source origin (reader.next accepts).2 :=
  (alertness origin seeks).holds_of_respects (Record.respects_read? _ accepts) (alert.place seeks)

theorem IsAlert.next_of_none (alert : IsAlert source origin reader) (seeks : source.canSeek = true)
    (called : reader.next accepts = (none, after)) :
    after.cursor.unread = [] ∧ reader.left accepts = [] ∧ after.left accepts = [] ∧
      after.next accepts = (none, after) := by
  have read := read?_of_next called
  have still : IsAlert source origin after := by
    have next := alert.next seeks accepts
    rwa [called] at next
  have begun := begun_of_next called
  have nothing : after.cursor.unread = [] :=
    List.isEmpty_iff.mp (Record.atEnd_of_read?_none read)
  have again := still.read?_eq nothing accepts
  have place := place_of_next called
  refine ⟨nothing, ?_, ?_, ?_⟩
  · rw [left, Record.readAll_none read]
  · rw [left, place, Record.readAll_none again]
  · simp only [RecordReader.next, place, again, Option.map_none, Option.getD_none, ← begun]

def eventsLeft (accepts : String → Bool) (reader : RecordReader StreamCursor) : List Event :=
  (reader.left accepts).filterMap Record.event?

theorem IsAlert.nextEvent (alert : IsAlert source origin reader) (seeks : source.canSeek = true)
    (accepts : String → Bool) : IsAlert source origin (reader.nextEvent accepts).2 ∧
      (reader.nextEvent accepts).1 = (reader.eventsLeft accepts).head? ∧
      (reader.nextEvent accepts).2.eventsLeft accepts = (reader.eventsLeft accepts).tail := by
  have next := alert.next seeks accepts
  fun_induction RecordReader.nextEvent accepts reader with
  | case1 reader after called =>
    obtain ⟨-, before, later, -⟩ := alert.next_of_none seeks called
    rw [called] at next
    simp only [eventsLeft, before, later, List.filterMap_nil]
    exact ⟨next, rfl, rfl⟩
  | case2 reader event after called =>
    rw [called] at next
    rw [eventsLeft, left_of_some called]
    exact ⟨next, rfl, rfl⟩
  | case3 reader after called ih =>
    rw [called] at next
    have same : reader.eventsLeft accepts = after.eventsLeft accepts := by
      rw [eventsLeft, left_of_some called]
      rfl
    rw [same]
    exact ih next (next.next seeks accepts)

def afterCalls (accepts : String → Bool) (n : Nat) (reader : RecordReader StreamCursor) :
    RecordReader StreamCursor :=
  (fun reader => (reader.next accepts).2)^[n] reader

def afterEvents (accepts : String → Bool) (n : Nat) (reader : RecordReader StreamCursor) :
    RecordReader StreamCursor :=
  (fun reader => (reader.nextEvent accepts).2)^[n] reader

theorem afterCalls_succ (accepts : String → Bool) (n : Nat) (reader : RecordReader StreamCursor) :
    reader.afterCalls accepts (n + 1) = ((reader.afterCalls accepts n).next accepts).2 :=
  Function.iterate_succ_apply' _ n reader

theorem IsAlert.afterCalls (alert : IsAlert source origin reader) (seeks : source.canSeek = true)
    (accepts : String → Bool) (n : Nat) : IsAlert source origin (reader.afterCalls accepts n) := by
  induction n with
  | zero => exact alert
  | succ n ih =>
    rw [afterCalls_succ]
    exact ih.next seeks accepts

/-- Each call gives the record of its number, and none after the last. -/
theorem IsAlert.fst_next_afterCalls (alert : IsAlert source origin reader)
    (seeks : source.canSeek = true) (accepts : String → Bool) (n : Nat) :
    ((reader.afterCalls accepts n).next accepts).1 = (reader.left accepts)[n]? := by
  refine fst_step_iterate (·.next accepts) (·.left accepts) (IsAlert source origin)
    (fun reader alert => alert.next seeks accepts) (fun reader _ => fst_next reader) ?_ n alert
  intro reader alert
  cases called : reader.next accepts with
  | mk found after =>
    cases found with
    | none =>
      obtain ⟨-, before, later, -⟩ := alert.next_of_none seeks called
      rw [before, later, List.tail_nil]
    | some record => rw [left_of_some called, List.tail_cons]

theorem IsAlert.fst_nextEvent_afterEvents (alert : IsAlert source origin reader)
    (seeks : source.canSeek = true) (accepts : String → Bool) (n : Nat) :
    ((reader.afterEvents accepts n).nextEvent accepts).1 = (reader.eventsLeft accepts)[n]? :=
  fst_step_iterate (·.nextEvent accepts) (·.eventsLeft accepts) (IsAlert source origin)
    (fun _ alert => (alert.nextEvent seeks accepts).1)
    (fun _ alert => (alert.nextEvent seeks accepts).2.1)
    (fun _ alert => (alert.nextEvent seeks accepts).2.2) n alert

theorem IsAlert.position_lt_afterCalls (alert : IsAlert source origin reader)
    (seeks : source.canSeek = true) {n : Nat} (more : n < (reader.left accepts).length) :
    (reader.afterCalls accepts n).cursor.position <
      (reader.afterCalls accepts (n + 1)).cursor.position := by
  have first := alert.fst_next_afterCalls seeks accepts n
  rw [List.getElem?_eq_getElem more] at first
  rw [afterCalls_succ]
  exact (position_lt_next (Prod.ext first rfl)).1

theorem IsAlert.add_le_position (alert : IsAlert source origin reader)
    (seeks : source.canSeek = true) {n : Nat} (more : n ≤ (reader.left accepts).length) :
    reader.cursor.position + n ≤ (reader.afterCalls accepts n).cursor.position := by
  induction n with
  | zero => exact Nat.le_refl _
  | succ n ih =>
    have before := ih (Nat.le_of_succ_le more)
    have moved := alert.position_lt_afterCalls seeks more
    omega

theorem IsAlert.afterCalls_of_all (alert : IsAlert source origin reader)
    (seeks : source.canSeek = true) {n : Nat} (all : (reader.left accepts).length < n) :
    (reader.afterCalls accepts n).cursor.unread = [] ∧
      reader.afterCalls accepts n =
        reader.afterCalls accepts ((reader.left accepts).length + 1) := by
  have last := alert.fst_next_afterCalls seeks accepts (reader.left accepts).length
  rw [List.getElem?_eq_none (Nat.le_refl _)] at last
  have first := alert.afterCalls seeks accepts (reader.left accepts).length
  have next : (reader.afterCalls accepts (reader.left accepts).length).next accepts =
      (none, reader.afterCalls accepts ((reader.left accepts).length + 1)) :=
    Prod.ext last (afterCalls_succ _ _ _).symm
  obtain ⟨nothing, -, -, again⟩ := first.next_of_none seeks next
  have same : reader.afterCalls accepts n =
      reader.afterCalls accepts ((reader.left accepts).length + 1) := by
    obtain ⟨more, rfl⟩ := Nat.exists_eq_add_of_lt all
    rw [Nat.add_right_comm, Nat.add_comm, RecordReader.afterCalls, Function.iterate_add_apply]
    exact Function.iterate_fixed (congrArg Prod.snd again) more
  exact ⟨same ▸ nothing, same⟩

/-- Records of a source whose seeks work, asked for one at a time. There are no more than bytes
that can be delivered. Each call gives the record of its number and moves the cursor on; after the
last one no call gives a record, the source has ended or failed with nothing fetched left unread,
and nothing changes any more. If the source does not end early, all that it can deliver is then
passed. Calls for events give those among the records, whatever names are refused. -/
theorem ended_for_good {source : Reader} (seeks : source.canSeek = true)
    (accepts : String → Bool) (capacity : Nat) (sentinel : UInt8) :
    let first : RecordReader StreamCursor :=
      { cursor := StreamCursor.ofReader source capacity sentinel }
    let records := first.left accepts
    records.length ≤ source.deliverable.length - first.cursor.position ∧
      (∀ n, ((first.afterCalls accepts n).next accepts).1 = records[n]?) ∧
      (∀ n < records.length, (first.afterCalls accepts n).cursor.position <
        (first.afterCalls accepts (n + 1)).cursor.position) ∧
      (∀ n > records.length,
        let last := first.afterCalls accepts n
        last = first.afterCalls accepts (records.length + 1) ∧
          last.cursor.unread = [] ∧ last.cursor.ended = true ∧
          (source.Attentive → source.deliverable.length ≤ last.cursor.position)) ∧
      ∀ n, ((first.afterEvents accepts n).nextEvent accepts).1 =
        (records.filterMap Record.event?)[n]? := by
  intro first records
  have alert : IsAlert source first.cursor.position first :=
    StreamCursor.alert_ofReader source capacity sentinel
  refine ⟨?_, alert.fst_next_afterCalls seeks accepts,
    fun n more => alert.position_lt_afterCalls seeks more, ?_,
    alert.fst_nextEvent_afterEvents seeks accepts⟩
  · have lower := alert.add_le_position seeks (Nat.le_refl records.length)
    have upper := (alert.afterCalls seeks accepts records.length).inside
    simp only [edge] at upper
    omega
  · intro n all last
    obtain ⟨nothing, same⟩ := alert.afterCalls_of_all seeks all
    have still := alert.afterCalls seeks accepts n
    have ended := still.last nothing
    refine ⟨same, nothing, ended, fun attentive => ?_⟩
    have whole := still.told attentive ended
    rwa [edge, nothing, List.length_nil, Nat.add_zero] at whole

theorem ended_for_good_brokenOff :
    Record.brokenOff.canSeek = true ∧
      let first : RecordReader StreamCursor :=
        { cursor := StreamCursor.ofReader Record.brokenOff 0 0x31 }
      ∀ n > (first.left fun _ => true).length,
        25 ≤ (first.afterCalls (fun _ => true) n).cursor.position := by
  have seeks : Record.brokenOff.canSeek = true := rfl
  have attentive : Record.brokenOff.Attentive := Reader.attentive_slow _ _ _
  refine ⟨seeks, fun n all => ?_⟩
  obtain ⟨-, -, -, whole⟩ :=
    (ended_for_good seeks (fun _ => true) 0 0x31).2.2.2.1 n all
  exact whole attentive

end RecordReader

end ProfileTrace
