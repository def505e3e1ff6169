import ProfileTrace.Proofs.Document.Written

/-! The copy of a stack source that a reader of its document has. Members are found by their names,
rows refer to each other by whole numbers, and a time is the one nearest to its number. -/

namespace ProfileTrace

namespace Json.Value

def member? (name : String) : Value → Option Value
  | .object members => members.lookup name
  | _ => none

def items? : Value → Option (List Value)
  | .list items => some items
  | _ => none

def text? : Value → Option String
  | .text string => some string
  | _ => none

def int? : Value → Option Int
  | .number ('-' :: digits) =>
      if isDigits digits then some (-(Nat.ofDigitChars 10 digits 0 : Int)) else none
  | .number digits => if isDigits digits then some (Nat.ofDigitChars 10 digits 0 : Int) else none
  | _ => none

/-- A time: the one nearest to a number, or none. -/
def time? : Value → Option (Option Seconds)
  | .null => some none
  | .number digits => (Seconds.ofChars? digits).map some
  | _ => none

theorem lookup_map {α β : Type} (value : α → β) (name : String) (members : List (String × α)) :
    (members.map fun (name, x) => (name, value x)).lookup name =
      (members.lookup name).map value := by
  induction members with
  | nil => rfl
  | cons entry members ih =>
    rw [List.map_cons, List.lookup_cons, List.lookup_cons]
    cases name == entry.1 with
    | true => rfl
    | false => exact ih

theorem member?_ofRow (name : String) (row : Row) :
    (ofRow row).member? name = (row.lookup name).map ofScalar :=
  lookup_map ofScalar name row

theorem member?_ofTables (name : String) (tables : JsonTables) :
    (ofTables tables).member? name = (tables.lookup name).map ofMember :=
  lookup_map ofMember name tables

@[simp] theorem text?_ofScalar (string : String) : (ofScalar (.text string)).text? = some string :=
  rfl

theorem int?_digits {digits : List Char} (isDigits : isDigits digits = true) :
    (number digits).int? = some (Nat.ofDigitChars 10 digits 0 : Int) := by
  unfold int?
  split
  next same =>
    obtain rfl := Value.number.inj same
    cases isDigits
  next same =>
    obtain rfl := Value.number.inj same
    rw [if_pos isDigits]
  next other => exact absurd rfl (other digits)

@[simp] theorem int?_ofNat (n : Nat) : (ofScalar (Document.ofNat n)).int? = some (n : Int) := by
  have value := int?_digits (isDigits_digitChars n)
  rwa [Seconds.digitChars, Nat.ofDigitChars_ten_toDigits] at value

@[simp] theorem int?_ofInt (n : Int) : (ofScalar (Document.ofInt n)).int? = some n := by
  by_cases negative : n < 0
  · have value : (ofScalar (Document.ofInt n)).int? =
        some (-(Nat.ofDigitChars 10 (Seconds.digitChars n.natAbs) 0 : Int)) := by
      simp only [Document.ofInt, negative, decide_true, Seconds.signChars, if_true]
      exact if_pos (isDigits_digitChars _)
    rw [value, Seconds.digitChars, Nat.ofDigitChars_ten_toDigits]
    congr 1
    omega
  · have whole : Document.ofInt n = Document.ofNat n.natAbs := by
      simp [Document.ofInt, Document.ofNat, negative, Seconds.signChars]
    rw [whole, int?_ofNat]
    congr 1
    omega

end Json.Value

/-- The time, if it is a number. -/
def Seconds.finite? (s : Seconds) : Option Seconds := if s.isFinite then some s else none

/-- A time that is written as a number is read as itself, and what is not finite as none. -/
@[simp] theorem Json.Value.time?_ofSeconds (s : Seconds) :
    (ofScalar (Document.ofSeconds s)).time? = some s.finite? := by
  unfold Document.ofSeconds Seconds.finite?
  split
  next finite => exact congrArg (Option.map some) (Seconds.ofChars?_shortestChars finite)
  next => rfl

open Json (Value)

structure FrameRow where
  id : Int
  name : String

structure NodeRow where
  id : Int
  caller : Int
  frame : Int

structure SampleRow where
  id : Int
  time : Option Seconds
  stack : Int

structure PeriodRow where
  tid : Int
  start : Option Seconds
  finish : Option Seconds
  reason : String
  deriving DecidableEq

structure Copy where
  frames : List FrameRow
  nodes : List NodeRow
  samples : List SampleRow
  totalBlocked : Option Seconds
  periods : Option (List PeriodRow)

/-! ### Reading -/

def FrameRow.ofValue? (value : Value) : Option FrameRow := do
  let id ← (← value.member? "id").int?
  let name ← (← value.member? "name").text?
  return { id, name }

def NodeRow.ofValue? (value : Value) : Option NodeRow := do
  let id ← (← value.member? "id").int?
  let caller ← (← value.member? "caller").int?
  let frame ← (← value.member? "frame").int?
  return { id, caller, frame }

def SampleRow.ofValue? (value : Value) : Option SampleRow := do
  let id ← (← value.member? "id").int?
  let time ← (← value.member? "time").time?
  let stack ← (← value.member? "stack").int?
  return { id, time, stack }

def PeriodRow.ofValue? (value : Value) : Option PeriodRow := do
  let tid ← (← value.member? "tid").int?
  let start ← (← value.member? "start").time?
  let finish ← (← value.member? "end").time?
  let reason ← (← value.member? "end_reason").text?
  return { tid, start, finish, reason }

def Json.Value.rows? {α : Type} (row? : Value → Option α) (value : Value) : Option (List α) := do
  (← value.items?).mapM row?

def Copy.ofValue? (value : Value) : Option Copy := do
  let frames ← (← value.member? "frames").rows? FrameRow.ofValue?
  let nodes ← (← value.member? "stacks").rows? NodeRow.ofValue?
  let samples ← (← value.member? "samples").rows? SampleRow.ofValue?
  let totalBlocked ← (← value.member? "totalBlockedTime").time?
  let periods ← match value.member? "blockedPeriods" with
    | none => some none
    | some table => (table.rows? PeriodRow.ofValue?).map some
  return { frames, nodes, samples, totalBlocked, periods }

/-! ### Rows of a source -/

def FrameRow.ofFrame (place : Nat) (frame : Frame) : FrameRow where
  id := (place % 0x100000000 : Nat)
  name := frame.displayKey

def NodeRow.ofNode (place : Nat) (node : StackNode) : NodeRow where
  id := Int.bmod place 0x100000000
  caller := node.caller.value
  frame := node.frame.index

def SampleRow.ofSample (place : Nat) (sample : Sample) : SampleRow where
  id := place
  time := sample.time.finite?
  stack := sample.stack.value

def PeriodRow.ofPeriod (period : BlockedPeriod) : PeriodRow where
  tid := period.tid
  start := period.start.finite?
  finish := period.finish.finite?
  reason := period.reason.name

def Copy.ofSource (source : StackSource) : Copy where
  frames := source.frames.toList.mapIdx .ofFrame
  nodes := source.nodes.toList.mapIdx .ofNode
  samples := source.samples.mapIdx .ofSample
  totalBlocked := source.totalBlocked.finite?
  periods :=
    if source.blockedPeriods.isEmpty then none else some (source.blockedPeriods.map .ofPeriod)

theorem FrameRow.ofValue?_frameRow (frame : Frame) (place : Nat) :
    FrameRow.ofValue? (.ofRow (Document.frameRow frame place)) = some (.ofFrame place frame) := by
  simp [FrameRow.ofValue?, Value.member?_ofRow, Document.frameRow, List.lookup_cons, ofFrame]

theorem NodeRow.ofValue?_ofRow (id caller : Int) (frame : Nat) :
    NodeRow.ofValue? (.ofRow [("id", Document.ofInt id), ("caller", Document.ofInt caller),
      ("frame", Document.ofNat frame)]) = some { id, caller, frame } := by
  simp [NodeRow.ofValue?, Value.member?_ofRow, List.lookup_cons]

theorem NodeRow.ofValue?_nodeRow (node : StackNode) (place : Nat) :
    NodeRow.ofValue? (.ofRow (Document.nodeRow node place)) = some (.ofNode place node) :=
  NodeRow.ofValue?_ofRow _ _ _

theorem SampleRow.ofValue?_sampleRow (sample : Sample) (place : Nat) :
    SampleRow.ofValue? (.ofRow (Document.sampleRow sample place)) =
      some (.ofSample place sample) := by
  simp [SampleRow.ofValue?, Value.member?_ofRow, Document.sampleRow, List.lookup_cons, ofSample]

theorem PeriodRow.ofValue?_periodRow (period : BlockedPeriod) :
    PeriodRow.ofValue? (.ofRow (Document.periodRow period)) = some (.ofPeriod period) := by
  simp [PeriodRow.ofValue?, Value.member?_ofRow, Document.periodRow, List.lookup_cons, ofPeriod]

theorem Json.Value.rows?_ofMember {α β : Type} (items : List α) (row : α → Row)
    {row? : Value → Option β} {read : α → β}
    (each : ∀ x, row? (.ofRow (row x)) = some (read x)) :
    (Value.ofMember (.rows (items.map row))).rows? row? = some (items.map read) := by
  have rows : ((items.map row).map Value.ofRow).mapM row? = some (items.map read) := by
    induction items with
    | nil => rfl
    | cons x items ih =>
      simp only [List.map_cons, List.mapM_cons, each, ih]
      rfl
  exact rows

namespace Copy

theorem ofValue?_ofTables (source : StackSource) :
    ofValue? (.ofTables (Document.tables source)) = some (.ofSource source) := by
  have frames := Value.rows?_ofMember source.frames.toList.zipIdx
    (fun entry => Document.frameRow entry.1 entry.2) fun entry =>
      FrameRow.ofValue?_frameRow entry.1 entry.2
  have nodes := Value.rows?_ofMember source.nodes.toList.zipIdx
    (fun entry => Document.nodeRow entry.1 entry.2) fun entry =>
      NodeRow.ofValue?_nodeRow entry.1 entry.2
  have samples := Value.rows?_ofMember source.samples.zipIdx
    (fun entry => Document.sampleRow entry.1 entry.2) fun entry =>
      SampleRow.ofValue?_sampleRow entry.1 entry.2
  have periods := Value.rows?_ofMember source.blockedPeriods _ PeriodRow.ofValue?_periodRow
  have total : Value.ofMember (.scalar (Document.ofSeconds source.totalBlocked)) =
      .ofScalar (Document.ofSeconds source.totalBlocked) := rfl
  -- the table of the periods is the only one that may be missing
  cases none : source.blockedPeriods.isEmpty with
  | true =>
    simp [ofValue?, Value.member?_ofTables, Document.tables, List.lookup_cons, ofSource, none,
      List.mapIdx_eq_zipIdx_map, frames, nodes, samples, total]
  | false =>
    simp [ofValue?, Value.member?_ofTables, Document.tables, List.lookup_cons, ofSource, none,
      List.mapIdx_eq_zipIdx_map, frames, nodes, samples, total, periods]

end Copy

/-! ### The text of a document -/

namespace Document

@[simp] theorem isSpelled_ofNat (n : Nat) : (ofNat n).IsSpelled := Json.isNumber_whole false n

@[simp] theorem isSpelled_ofInt (n : Int) : (ofInt n).IsSpelled := Json.isNumber_whole _ n.natAbs

@[simp] theorem isSpelled_ofSeconds (s : Seconds) : (ofSeconds s).IsSpelled := by
  unfold ofSeconds
  split
  next finite => exact Json.isNumber_shortestChars finite
  next => trivial

@[simp] theorem isSpelled_text (string : String) : (Scalar.text string).IsSpelled := trivial

theorem isSpelled_rows {α : Type} (items : List α) (row : α → Row)
    (each : ∀ x, (row x).IsSpelled) : (Member.rows (items.map row)).IsSpelled := by
  intro other among
  obtain ⟨x, -, rfl⟩ := List.mem_map.mp among
  exact each x

theorem isSpelled_tables (source : StackSource) : ∀ entry ∈ tables source, entry.2.IsSpelled := by
  have frames := isSpelled_rows source.frames.toList.zipIdx
    (fun entry => frameRow entry.1 entry.2) fun entry => by simp [Row.IsSpelled, frameRow]
  have nodes := isSpelled_rows source.nodes.toList.zipIdx
    (fun entry => nodeRow entry.1 entry.2) fun entry => by simp [Row.IsSpelled, nodeRow]
  have samples := isSpelled_rows source.samples.zipIdx
    (fun entry => sampleRow entry.1 entry.2) fun entry => by simp [Row.IsSpelled, sampleRow]
  have periods := isSpelled_rows source.blockedPeriods periodRow
    fun period => by simp [Row.IsSpelled, periodRow]
  have total : (Member.scalar (ofSeconds source.totalBlocked)).IsSpelled := isSpelled_ofSeconds _
  intro entry among
  rcases List.mem_append.mp among with always | sometimes
  · simp only [List.mem_cons, List.not_mem_nil, or_false] at always
    rcases always with rfl | rfl | rfl | rfl
    · exact frames
    · exact nodes
    · exact samples
    · exact total
  · split at sometimes
    next => cases sometimes
    next =>
      rw [List.mem_singleton.mp sometimes]
      exact periods

/-- The text of a document, whatever its layout, reads back as the value of its tables. -/
theorem read?_text (source : StackSource) (pretty : Bool) :
    Json.read? (text source pretty).toList = some (.ofTables (tables source)) := by
  unfold text
  cases pretty with
  | true => exact Json.read?_ofTables Json.isBlank_pretty (isSpelled_tables source)
  | false => exact Json.read?_ofTables Json.isBlank_compact (isSpelled_tables source)

end Document

end ProfileTrace
