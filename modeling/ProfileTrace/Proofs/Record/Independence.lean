import ProfileTrace.Proofs.Record.Counts
import ProfileTrace.Proofs.Record.Cutting
import ProfileTrace.Proofs.Record.Streaming

/-! Records do not depend on each other. A record is read the same whatever stands in another one,
and whether or not another one was refused by its name: what one holds, and how much of it is
looked at, never moves the place where the next begins. -/

namespace ProfileTrace.Record

/-! ### Texts put together -/

theorem ofText_append {before after : List UInt8}
    (ended : before = [] ∨ before.getLast? = some 0x0A)
    (begins : after.head? = some 0x0A ∨ after.head? = some 0x0D) (accepts : String → Bool) :
    ofText accepts (before ++ after) = ofText accepts before ++ ofText accepts after := by
  have apart : layoutsOf (before ++ after) = layoutsOf before ++ layoutsOf after := by
    rcases ended with rfl | ended
    · rw [layoutsOf_nil, List.nil_append, List.nil_append]
    · apply layoutsOf_append ended
      rcases begins with feed | carriage
      · simp [feed, Cut.isLineBreak]
      · simp [carriage, Cut.isLineBreak]
  simp only [ofText_eq, apart, List.map_append]

/-- Where a line has ended and the next is empty or begins with a carriage return, the records of
a text fall apart into those before and those after, whatever they hold, and so do their counts. -/
theorem ofBuffer_append {before after : List UInt8}
    (ended : before = [] ∨ before.getLast? = some 0x0A)
    (begins : after.head? = some 0x0A ∨ after.head? = some 0x0D) (accepts : String → Bool) :
    ofBuffer accepts (before ++ after) = ofBuffer accepts before ++ ofBuffer accepts after ∧
      countAll (ofBuffer accepts (before ++ after)) =
        (countAll (ofBuffer accepts before)).merge (countAll (ofBuffer accepts after)) := by
  have apart : ofBuffer accepts (before ++ after) =
      ofBuffer accepts before ++ ofBuffer accepts after := by
    simp only [ofBuffer_eq, ofText_append ended begins]
  exact ⟨apart, by rw [apart, countAll_append]⟩

/-- A header that ends in its brackets, and a line of a stack whose bracket is not closed. -/
def brokenRecord : List UInt8 :=
  [0x61, 0x20, 0x31, 0x20, 0x5B, 0x30, 0x0A, 0x66, 0x20, 0x67, 0x20, 0x28, 0x6D, 0x0A]

theorem ofBuffer_append_brokenRecord :
    (brokenRecord = [] ∨ brokenRecord.getLast? = some 0x0A) ∧
      ((0x0D :: brokenRecord).head? = some 0x0A ∨ (0x0D :: brokenRecord).head? = some 0x0D) ∧
      ofBuffer (· != "g") (brokenRecord ++ 0x0D :: brokenRecord) =
        ofBuffer (· != "g") brokenRecord ++ ofBuffer (· != "g") (0x0D :: brokenRecord) := by
  have ended : brokenRecord = [] ∨ brokenRecord.getLast? = some 0x0A := .inr (by decide)
  have begins : (0x0D :: brokenRecord).head? = some 0x0A ∨
      (0x0D :: brokenRecord).head? = some 0x0D := .inr rfl
  exact ⟨ended, begins, (ofBuffer_append ended begins (· != "g")).1⟩

/-! ### Refused records -/

def refuse (accepts : String → Bool) : Record → Record
  | .event found => if accepts found.name then .event found else .filtered
  | .filtered => .filtered

theorem ofText_all (text : List UInt8) :
    ofText (fun _ => true) text = ((layoutsOf text).map RecordLayout.event).map .event := by
  rw [ofText_eq, List.map_map]
  rfl

theorem ofText_eq_map_refuse (accepts : String → Bool) (text : List UInt8) :
    ofText accepts text = (ofText (fun _ => true) text).map (refuse accepts) := by
  simp only [ofText_eq, List.map_map]
  rfl

theorem filterMap_event?_refuse (accepts : String → Bool) (events : List Event) :
    ((events.map .event).map (refuse accepts)).filterMap event? =
      events.filter fun event => accepts event.name := by
  induction events with
  | nil => rfl
  | cons event events ih =>
    simp only [List.map_cons, List.filterMap_cons, ih, List.filter_cons, refuse]
    cases accepts event.name <;> rfl

theorem countAll_cons (record : Record) (records : List Record) :
    countAll (record :: records) = record.counts.merge (countAll records) := by
  rw [← List.singleton_append, countAll_append, countAll_singleton]

theorem countAll_refuse (accepts : String → Bool) (events : List Event) :
    countAll ((events.map .event).map (refuse accepts)) =
      { records := (events.filter fun event => accepts event.name).length
        filtered := (events.filter fun event => !accepts event.name).length
        truncated := ((events.filter fun event => accepts event.name).filter
          fun event => event.truncated).length } := by
  induction events with
  | nil => rfl
  | cons event events ih =>
    simp only [List.map_cons, countAll_cons, ih, refuse]
    cases accepted : accepts event.name with
    | false => simp [accepted, counts, RecordCounts.merge, Nat.add_comm 1]
    | true => cases short : event.truncated <;>
        simp [accepted, short, counts, RecordCounts.merge, Nat.add_comm 1]

/-- Records that were read under a filter are those that are read without one, refused after. -/
structure Refuses (accepts : String → Bool) (all kept : List Record) : Prop where
  records_eq : kept = all.map (refuse accepts)
  events_eq : kept.filterMap event? =
    (all.filterMap event?).filter fun event => accepts event.name
  counts_eq : countAll kept =
    { records := ((all.filterMap event?).filter fun event => accepts event.name).length
      filtered := ((all.filterMap event?).filter fun event => !accepts event.name).length
      truncated := ((kept.filterMap event?).filter fun event => event.truncated).length }
  total_eq : (countAll kept).records + (countAll kept).filtered = (countAll all).records
  whole : (countAll all).records = all.length

theorem refuses_of_events (accepts : String → Bool) (events : List Event) :
    Refuses accepts (events.map .event) ((events.map .event).map (refuse accepts)) := by
  have found : (events.map Record.event).filterMap event? = events := by
    rw [List.filterMap_map]
    exact List.filterMap_some
  have all : countAll (events.map Record.event) =
      { records := events.length
        truncated := (events.filter fun event => event.truncated).length } := by
    have same := countAll_refuse (fun _ => true) events
    have unchanged : refuse (fun _ => true) ∘ Record.event = Record.event := rfl
    simpa [unchanged] using same
  refine ⟨rfl, ?_, ?_, ?_, ?_⟩
  · rw [found, filterMap_event?_refuse]
  · rw [found, filterMap_event?_refuse, countAll_refuse]
  · rw [countAll_refuse, all]
    exact (List.length_eq_length_filter_add fun event : Event => accepts event.name).symm
  · rw [all, List.length_map]

/-- Refusing records by their names while a source is read leaves every other record as it is
when all of them are read and the events then looked through. -/
theorem refuses_ofReader {reader : Reader} (calm : reader.Faultless)
    (seeks : reader.canSeek = true) (accepts : String → Bool) (capacity : Nat) :
    Refuses accepts (ofReader (fun _ => true) reader capacity)
      (ofReader accepts reader capacity) := by
  have same := ofText_eq_map_refuse accepts reader.ahead
  rw [ofReader_eq calm seeks, ofReader_eq calm seeks, same, ofText_all]
  exact refuses_of_events accepts _

/-- Two records of different names, delivered byte by byte. -/
def slowRecords : Reader := .slow [
    0x61, 0x20, 0x31, 0x20, 0x5B, 0x30, 0x5D, 0x20, 0x31, 0x3A, 0x20, 0x78, 0x3A, 0x0A,
    0x66, 0x20, 0x67, 0x20, 0x28, 0x6D, 0x29, 0x0A, 0x0A, 0x61, 0x20, 0x31, 0x20, 0x5B,
    0x30, 0x5D, 0x20, 0x32, 0x3A, 0x20, 0x79, 0x3A, 0x0A, 0x0A] 0

theorem refuses_ofReader_slowRecords :
    slowRecords.Faultless ∧ slowRecords.canSeek = true ∧
      Refuses (· == "x") (ofReader (fun _ => true) slowRecords 0)
        (ofReader (· == "x") slowRecords 0) := by
  have calm : slowRecords.Faultless := Reader.faultless_slow _ _
  have seeks : slowRecords.canSeek = true := rfl
  exact ⟨calm, seeks, refuses_ofReader calm seeks (· == "x") 0⟩

end ProfileTrace.Record
