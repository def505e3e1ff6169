/-! A seekable source of bytes that may be slow and may fail. A read delivers at most
as many bytes as its turn allows, may first be interrupted a finite number of times,
and fails from a given offset on; seeking and asking for the position may fail too. -/

namespace ProfileTrace

inductive Fault where
  | readFailed
  | seekFailed
  | tellFailed
  deriving DecidableEq, Repr

def Fault.message : Fault → String
  | .readFailed => "read failed"
  | .seekFailed => "seek failed"
  | .tellFailed => "tell failed"

/-- How one read goes: first its interruptions, then at most `most` bytes. -/
structure Turn where
  interruptions : Nat := 0
  most : Option Nat := none

structure Reader where
  bytes : ByteArray
  /-- The offset the source stands at when a cursor is made over it. -/
  start : Nat := 0
  /-- How each completed read goes, by its number. -/
  pace : Nat → Turn := fun _ => {}
  /-- Reads at this offset or past it fail, and earlier reads stop there. -/
  failsFrom : Option Nat := none
  canSeek : Bool := true
  canTell : Bool := true
  turn : Nat := 0
  /-- Interruptions still to come before the next read completes. -/
  pending : Nat := (pace turn).interruptions

namespace Reader

def ofBytes (bytes : ByteArray) : Reader where
  bytes := bytes

/-- Reads of at most `most` bytes, with one interruption before every `every - 1` reads
after the first: of all calls, those numbered `every`, `2 * every` and so on. -/
def regularPace (most every : Option Nat) (turn : Nat) : Turn where
  most := most
  interruptions :=
    match every with
    | none => 0
    | some k => if 0 < turn ∧ turn % (k - 1) = 0 then 1 else 0

inductive Outcome where
  | interrupted
  | failed
  | delivered (bytes : List UInt8)

private def collect (bytes : ByteArray) (offset : Nat) : Nat → List UInt8 → List UInt8
  | 0, found => found
  | count + 1, found => collect bytes offset count (bytes[offset + count]?.getD 0 :: found)

def slice (bytes : ByteArray) (offset count : Nat) : List UInt8 :=
  collect bytes offset (min count (bytes.size - offset)) []

private theorem length_collect (bytes : ByteArray) (offset count : Nat) (found : List UInt8) :
    (collect bytes offset count found).length = count + found.length := by
  induction count generalizing found with
  | zero => simp [collect]
  | succ count ih => rw [collect, ih, List.length_cons]; omega

theorem length_slice (bytes : ByteArray) (offset count : Nat) :
    (slice bytes offset count).length = min count (bytes.size - offset) := by
  simp [slice, length_collect]

private theorem collect_eq (bytes : ByteArray) {offset count : Nat}
    (inside : offset + count ≤ bytes.size) (found : List UInt8) :
    collect bytes offset count found =
      (bytes.data.toList.drop offset).take count ++ found := by
  induction count generalizing found with
  | zero => simp [collect]
  | succ count ih =>
    have here : offset + count < bytes.size := by omega
    have byte : (bytes.data.toList.drop offset)[count]? = some bytes[offset + count] := by
      rw [List.getElem?_drop, Array.getElem?_toList]
      exact Array.getElem?_eq_getElem here
    have same : bytes[offset + count]? = some bytes[offset + count] := by
      simp [here]
    rw [collect, ih (by omega), List.take_add_one, byte, same]
    simp

theorem slice_eq (bytes : ByteArray) (offset count : Nat) :
    slice bytes offset count = (bytes.data.toList.drop offset).take count := by
  have size : bytes.data.toList.length = bytes.size := rfl
  have short : (bytes.data.toList.drop offset).length = bytes.size - offset := by
    rw [List.length_drop, size]
  unfold slice
  by_cases inside : offset ≤ bytes.size
  · rw [collect_eq bytes (by omega), List.append_nil, ← short, ← List.take_take,
      List.take_length]
  · have none : bytes.data.toList.drop offset = [] := by
      apply List.drop_eq_nil_of_le
      omega
    have zero : min count (bytes.size - offset) = 0 := by omega
    rw [zero, none, List.take_nil]
    rfl

def nextTurn (reader : Reader) : Reader :=
  { reader with turn := reader.turn + 1, pending := (reader.pace (reader.turn + 1)).interruptions }

/-- One call for up to `space` bytes at `offset`. -/
def read (reader : Reader) (offset space : Nat) : Outcome × Reader :=
  if 0 < reader.pending then
    (.interrupted, { reader with pending := reader.pending - 1 })
  else if reader.failsFrom.any (· ≤ offset) then
    (.failed, reader.nextTurn)
  else
    let allowed := ((reader.pace reader.turn).most.map (min space)).getD space
    let allowed := (reader.failsFrom.map fun limit => min allowed (limit - offset)).getD allowed
    (.delivered (slice reader.bytes offset allowed), reader.nextTurn)

@[simp] theorem bytes_read (reader : Reader) (offset space : Nat) :
    (reader.read offset space).2.bytes = reader.bytes := by
  simp only [read]
  split
  · rfl
  · split <;> rfl

theorem length_of_delivered {reader after : Reader} {offset space : Nat} {bytes : List UInt8}
    (delivered : reader.read offset space = (.delivered bytes, after)) :
    bytes.length ≤ reader.bytes.size - offset := by
  simp only [read] at delivered
  split at delivered
  · simp at delivered
  · split at delivered
    · simp at delivered
    · simp only [Prod.mk.injEq, Outcome.delivered.injEq] at delivered
      rw [← delivered.1, length_slice]
      exact Nat.min_le_right _ _

theorem pending_of_interrupted {reader after : Reader} {offset space : Nat}
    (interrupted : reader.read offset space = (.interrupted, after)) :
    after.pending < reader.pending := by
  simp only [read] at interrupted
  split at interrupted
  next waiting =>
    simp only [Prod.mk.injEq, true_and] at interrupted
    rw [← interrupted]
    exact Nat.sub_one_lt_of_lt waiting
  next => split at interrupted <;> simp at interrupted

structure Delivery where
  bytes : List UInt8
  reader : Reader
  ended : Bool
  failed : Bool

/-- Reads again and again at `offset`, into `space`, until `need` bytes have come,
a read brings nothing, or one fails. -/
def gather (reader : Reader) (offset need space : Nat) : Delivery :=
  if need = 0 then { bytes := [], reader, ended := false, failed := false }
  else
    match _found : reader.read offset space with
    | (.interrupted, after) => after.gather offset need space
    | (.failed, after) => { bytes := [], reader := after, ended := true, failed := true }
    | (.delivered bytes, after) =>
        if _empty : bytes.length = 0 then
          { bytes := [], reader := after, ended := true, failed := false }
        else
          let more := after.gather (offset + bytes.length) (need - bytes.length)
            (space - bytes.length)
          { more with bytes := bytes ++ more.bytes }
termination_by (need, reader.pending)
decreasing_by
  · exact Prod.Lex.right _ (pending_of_interrupted _found)
  · exact Prod.Lex.left _ _ (by omega)

@[simp] theorem bytes_gather (reader : Reader) (offset need space : Nat) :
    (reader.gather offset need space).reader.bytes = reader.bytes := by
  fun_induction gather reader offset need space with
  | case1 => rfl
  | case2 reader offset need space _ after found ih =>
    have same := bytes_read reader offset space
    rw [found] at same
    rw [ih, same]
  | case3 reader offset need space _ after found =>
    have same := bytes_read reader offset space
    rwa [found] at same
  | case4 reader offset need space _ bytes after found =>
    have same := bytes_read reader offset space
    rwa [found] at same
  | case5 reader offset need space _ bytes after found _ more ih =>
    have same := bytes_read reader offset space
    rw [found] at same
    rw [ih, same]

theorem length_gather (reader : Reader) (offset need space : Nat) :
    (reader.gather offset need space).bytes.length ≤ reader.bytes.size - offset := by
  fun_induction gather reader offset need space with
  | case1 => simp
  | case2 reader offset need space _ after found ih =>
    have same := bytes_read reader offset space
    rw [found] at same
    rwa [same] at ih
  | case3 => simp
  | case4 => simp
  | case5 reader offset need space _ bytes after found _ more ih =>
    have same := bytes_read reader offset space
    rw [found] at same
    rw [same] at ih
    have bound := length_of_delivered found
    have tail : more.bytes.length ≤ reader.bytes.size - (offset + bytes.length) := ih
    simp only [List.length_append]
    omega

end Reader

end ProfileTrace
