import ProfileTrace.Cursor.Scan
import ProfileTrace.Text.Latin

/-! Scheduler switches: which thread left a processor and which one took it. The fields
are read in order, each after the next equals sign of the line, and a line that stops
early leaves the remaining fields absent. -/

namespace ProfileTrace

structure Switch where
  previousCommand : String := ""
  previousTid : Int := Cursor.absent
  previousPriority : Int := Cursor.absent
  /-- One letter for the state of the thread that left; U+0000 when absent. -/
  previousState : Char := '\x00'
  nextCommand : String := ""
  nextTid : Int := Cursor.absent
  nextPriority : Int := Cursor.absent
  deriving DecidableEq, Repr

namespace Switch
open Cursor Text

variable {σ : Type} [Cursor σ]

def detailsMark : String := "sched_switch"

def skipPast (target : UInt8) (c : σ) : Bool × σ :=
  match skipToOnLine target c with
  | (true, c) => (true, (advance c).2)
  | (false, c) => (false, c)

def isCommandEnd (b : UInt8) : Bool := isSpaceByte b || b == 0x0A

def readCommand (c : σ) : String × σ :=
  let (bytes, c) := readUntil isCommandEnd c
  (ofBytes bytes, c)

def readState (c : σ) : Char × σ :=
  if isGraphicByte (current c) then (charOfByte (current c), (advance c).2) else ('\x00', c)

structure Field (σ : Type) where
  separator : UInt8
  read : Switch → σ → Switch × σ

def valueField {α : Type} (readValue : σ → α × σ) (keep : Switch → α → Switch) : Field σ where
  separator := 0x3D
  read switch c :=
    let (value, c) := readValue c
    (keep switch value, c)

/-- The point of the arrow between the two threads. The arrow is stepped over as a whole,
so that its equals signs begin no field. -/
def arrow : Field σ where
  separator := 0x3E
  read switch c := (switch, c)

def fields : List (Field σ) :=
  [valueField readCommand fun s command => { s with previousCommand := command },
   valueField readInt32 fun s tid => { s with previousTid := tid },
   valueField readInt32 fun s priority => { s with previousPriority := priority },
   valueField readState fun s state => { s with previousState := state },
   arrow,
   valueField readCommand fun s command => { s with nextCommand := command },
   valueField readInt32 fun s tid => { s with nextTid := tid },
   valueField readInt32 fun s priority => { s with nextPriority := priority }]

/-- Reads the fields one after the other until the line has no separator for the next. -/
def readFields : List (Field σ) → Switch → σ → Switch × σ
  | [], switch, c => (switch, c)
  | field :: others, switch, c =>
      match skipPast field.separator c with
      | (true, c) =>
          let (switch, c) := field.read switch c
          readFields others switch c
      | (false, c) => (switch, c)

def read (c : σ) : Switch × σ := readFields fields {} c

theorem reaches_skipPast (target : UInt8) (c : σ) : Reaches c (skipPast target c).2 := by
  have first := reaches_skipToOnLine target c
  unfold skipPast
  split
  next after found => rw [found] at first; exact first.trans (reaches_advance _)
  next after found => rwa [found] at first

theorem reaches_readState (c : σ) : Reaches c (readState c).2 := by
  unfold readState
  split
  · exact reaches_advance c
  · exact Reaches.refl c

theorem reaches_field {field : Field σ} (listed : field ∈ fields) (switch : Switch) (c : σ) :
    Reaches c (field.read switch c).2 := by
  simp only [fields, List.mem_cons, List.not_mem_nil, or_false] at listed
  rcases listed with rfl | rfl | rfl | rfl | rfl | rfl | rfl | rfl
  · exact reaches_readUntil isCommandEnd c
  · exact reaches_readInt32 c
  · exact reaches_readInt32 c
  · exact reaches_readState c
  · exact Reaches.refl c
  · exact reaches_readUntil isCommandEnd c
  · exact reaches_readInt32 c
  · exact reaches_readInt32 c

theorem reaches_readFields {chosen : List (Field σ)}
    (reaches : ∀ field ∈ chosen, ∀ switch c, Reaches c (field.read switch c).2)
    (switch : Switch) (c : σ) : Reaches c (readFields chosen switch c).2 := by
  induction chosen generalizing switch c with
  | nil => exact Reaches.refl c
  | cons field others ih =>
    have first := reaches_skipPast field.separator c
    unfold readFields
    split
    next after found =>
      rw [found] at first
      exact first.trans <| (reaches field (by simp) switch after).trans <|
        ih (fun other member => reaches other (by simp [member])) _ _
    next after found => rwa [found] at first

theorem reaches_read (c : σ) : Reaches c (read c).2 :=
  reaches_readFields (fun _ listed => reaches_field listed) {} c

end Switch

end ProfileTrace
