import Mathlib.Data.List.Forall2
import ProfileTrace.Proofs.Cursor.Simulation
import ProfileTrace.Proofs.Record.Parsing

/-! Records read through a window. Reading a record asks a cursor for nothing that scanning does
not ask for, so that the records of a source which never fails are those of its text, however the
source delivers it and wherever the window is slid or filled. -/

namespace ProfileTrace
open Cursor Text
open Cursor.Simulation (Keeps Respects)

variable {σ τ : Type} [Cursor σ] [Cursor τ] (sim : Simulation σ τ)

theorem respects_atRecordEnd : sim.Respects atRecordEnd atRecordEnd := by
  have next : sim.Respects
      (fun c => ((peek 1 c).1 == 0x0A || (peek 1 c).1 == 0x0D ||
        (peek 1 c).1 == sentinel (peek 1 c).2, (peek 1 c).2))
      (fun d => ((peek 1 d).1 == 0x0A || (peek 1 d).1 == 0x0D ||
        (peek 1 d).1 == sentinel (peek 1 d).2, (peek 1 d).2)) := by
    intro c d alike
    have after := sim.alike_peek 1 alike
    refine ⟨?_, after⟩
    simp only [sim.fst_peek 1 alike, sim.sentinel_eq after]
  exact .branch sim.atEnd_eq (.pure true)
    (.branch (sim.agrees_current (· == 0x0A)) next (.pure false))

theorem keeps_skipToRecordEnd : sim.Keeps skipToRecordEnd skipToRecordEnd := by
  intro c d alike
  obtain ⟨same, after⟩ := respects_atRecordEnd sim alike
  fun_induction skipToRecordEnd c generalizing d with
  | case1 c ends =>
    rw [skipToRecordEnd.eq_def d, dif_pos (same ▸ ends)]
    exact after
  | case2 c inside ih =>
    rw [skipToRecordEnd.eq_def d, dif_neg (same ▸ inside)]
    have next := sim.alike_advance after
    obtain ⟨same, after⟩ := respects_atRecordEnd sim next
    exact ih next same after

/-! ### Headers -/

namespace Header

theorem respects_takeTokens (tokens : List (List UInt8)) :
    sim.Respects (takeTokens tokens) (takeTokens tokens) := by
  intro c d alike
  fun_induction takeTokens tokens c generalizing d with
  | case1 tokens c ended =>
    have here := sim.keeps_skipSpaces alike
    have same : atCommandEnd (skipSpaces c) = atCommandEnd (skipSpaces d) := by
      simp only [atCommandEnd, sim.atEnd_eq here, sim.current_eq here]
    rw [takeTokens.eq_def tokens d, dif_pos (same ▸ ended)]
    exact ⟨rfl, here⟩
  | case2 tokens c going token =>
    rename_i ih
    have here := sim.keeps_skipSpaces alike
    have same : atCommandEnd (skipSpaces c) = atCommandEnd (skipSpaces d) := by
      simp only [atCommandEnd, sim.atEnd_eq here, sim.current_eq here]
    obtain ⟨word, after⟩ := sim.respects_readUntil isTokenEnd here
    rw [takeTokens.eq_def tokens d, dif_neg (same ▸ going)]
    simp only [← word]
    exact ih after

theorem respects_readCommand : sim.Respects readCommand readCommand :=
  (respects_takeTokens sim []).map fun tokens => ofBytes ([0x20].intercalate tokens.reverse)

theorem respects_readTid (pid : Int) : sim.Respects (readTid pid) (readTid pid) :=
  .branch (sim.agrees_current (· == 0x2F)) (sim.respects_readInt32.after sim.keeps_advance)
    (.pure pid)

theorem keeps_skipByte (b : UInt8) :
    sim.Keeps (fun c => if current c == b then (advance c).2 else c)
      (fun d => if current d == b then (advance d).2 else d) :=
  .branch (sim.agrees_current (· == b)) sim.keeps_advance sim.keeps_id

theorem respects_readCpu : sim.Respects readCpu readCpu := by
  have closed := (sim.respects_readInt32.andThen (keeps_skipByte sim 0x5D)).after
    sim.keeps_advance
  exact .branch (sim.agrees_current (· == 0x5B)) closed (.pure absent)

theorem respects_readColumn : sim.Respects readColumn readColumn := by
  have column := ((sim.respects_readUntil isColumnEnd).map fun bytes =>
    trim (ofBytes bytes)).andThen (keeps_skipByte sim 0x3A)
  exact column

theorem respects_readProperty : sim.Respects readProperty readProperty :=
  .branch (sim.agrees_current isDigitByte) sim.respects_readInt (.pure absent)

theorem respects_read : sim.Respects read read := by
  have spaces := sim.keeps_skipSpaces
  have column := (respects_readColumn sim).after spaces
  have number := (respects_readProperty sim).after spaces
  have processor := (respects_readCpu sim).after spaces
  have header := (respects_readCommand sim).bind fun command =>
    sim.respects_readInt32.bind fun pid => (respects_readTid sim pid).bind fun tid =>
    processor.bind fun cpu => column.bind fun time =>
    number.bind fun timeProperty => column.map fun name =>
      ({ command, pid, tid, cpu, timeProperty, name,
         time := (Seconds.ofText? time).getD .minusOne } : Header)
  exact header

end Header

/-! ### Switches -/

namespace Switch

theorem respects_skipPast (target : UInt8) : sim.Respects (skipPast target) (skipPast target) := by
  intro c d alike
  obtain ⟨same, after⟩ := sim.respects_skipToOnLine target alike
  unfold skipPast
  revert same after
  cases skipToOnLine target c with
  | mk found next =>
    cases skipToOnLine target d with
    | mk otherFound otherNext =>
      rintro rfl after
      cases found with
      | true => exact ⟨rfl, sim.alike_advance after⟩
      | false => exact ⟨rfl, after⟩

theorem respects_readCommand : sim.Respects readCommand readCommand :=
  (sim.respects_readUntil isCommandEnd).map ofBytes

theorem respects_readState : sim.Respects readState readState := by
  have letter : sim.Respects (fun c => (charOfByte (current c), (advance c).2))
      (fun d => (charOfByte (current d), (advance d).2)) :=
    fun _ _ alike => ⟨congrArg charOfByte (sim.current_eq alike), sim.alike_advance alike⟩
  exact .branch (sim.agrees_current isGraphicByte) letter (.pure '\x00')

structure SameField (field : Field σ) (other : Field τ) : Prop where
  separator_eq : field.separator = other.separator
  respects : ∀ switch, sim.Respects (field.read switch) (other.read switch)

theorem SameField.value {α : Type} {readValue : σ → α × σ} {otherValue : τ → α × τ}
    (respects : sim.Respects readValue otherValue) (keep : Switch → α → Switch) :
    SameField sim (valueField readValue keep) (valueField otherValue keep) :=
  ⟨rfl, fun switch => respects.map (keep switch)⟩

theorem sameField_fields : List.Forall₂ (SameField sim) fields fields := by
  have command := fun keep => SameField.value sim (respects_readCommand sim) keep
  have number := fun keep => SameField.value sim sim.respects_readInt32 keep
  have state := fun keep => SameField.value sim (respects_readState sim) keep
  have arrow : SameField sim arrow arrow := ⟨rfl, fun switch => .pure switch⟩
  exact .cons (command _) <| .cons (number _) <| .cons (number _) <| .cons (state _) <|
    .cons arrow <| .cons (command _) <| .cons (number _) <| .cons (number _) .nil

theorem respects_readFields {chosen : List (Field σ)} {others : List (Field τ)}
    (same : List.Forall₂ (SameField sim) chosen others) (switch : Switch) :
    sim.Respects (readFields chosen switch) (readFields others switch) := by
  induction same generalizing switch with
  | nil => exact .pure switch
  | @cons field other chosen others first rest ih =>
    intro c d alike
    obtain ⟨found, after⟩ := respects_skipPast sim field.separator alike
    unfold readFields
    rw [← first.separator_eq]
    revert found after
    cases skipPast field.separator c with
    | mk there next =>
      cases skipPast field.separator d with
      | mk otherThere otherNext =>
        rintro rfl after
        cases there with
        | true => exact ((first.respects switch).bind ih) after
        | false => exact ⟨rfl, after⟩

theorem respects_read : sim.Respects read read := respects_readFields sim (sameField_fields sim) {}

end Switch

/-! ### Lines of a stack -/

namespace FrameLine

theorem respects_readCode : sim.Respects readCode readCode := by
  have symbol := (sim.respects_readUntilLastOnLine 0x28).after sim.keeps_skipSpaces
  have code := (sim.respects_readUntil isFieldEnd).bind fun address => symbol.bind fun symbol =>
    (sim.respects_readUntil (· == 0x0A)).map fun column =>
      codeFrame (ofBytes address) (ofBytes symbol) (ofBytes column)
  exact code

theorem respects_read : sim.Respects read read := by
  have skipped : ∀ line : FrameLine, sim.Respects (fun c => (line, skipTo 0x0A c))
      (fun d => (line, skipTo 0x0A d)) := fun line =>
    (Respects.pure line).andThen (sim.keeps_skipWhile (· != 0x0A))
  have marked : sim.Agrees (fun c => current c == cutMarker && !atEnd c)
      (fun d => current d == cutMarker && !atEnd d) := by
    intro c d alike
    simp only [sim.current_eq alike, sim.atEnd_eq alike]
  have line := Respects.branch marked (skipped .cut) <|
    .branch (sim.agrees_current fun b => b == 0x0A || b == 0x0D) (skipped .blank) <|
    .branch sim.atEnd_eq (.pure .blank) ((respects_readCode sim).map .entry)
  exact line.after sim.keeps_skipSpaces

end FrameLine

/-! ### Records -/

namespace Record

theorem respects_readLines : sim.Respects readLines readLines := by
  intro c d alike
  fun_induction readLines c generalizing d with
  | case1 c ended =>
    obtain ⟨same, after⟩ := respects_atRecordEnd sim alike
    rw [readLines.eq_def d, dif_pos (same ▸ ended)]
    exact ⟨rfl, after⟩
  | case2 c inside line more =>
    rename_i ih
    obtain ⟨same, after⟩ := respects_atRecordEnd sim alike
    obtain ⟨first, next⟩ := FrameLine.respects_read sim (sim.alike_advance after)
    obtain ⟨others, last⟩ := ih next
    rw [readLines.eq_def d, dif_neg (same ▸ inside)]
    exact ⟨congrArg₂ List.cons first others, last⟩

theorem respects_readSwitch {place : Mark σ} {otherPlace : Mark τ}
    (same : sim.SamePlace place otherPlace) (details : String) :
    sim.Respects (readSwitch place details) (readSwitch otherPlace details) := by
  have back : sim.Keeps (restore place) (restore otherPlace) :=
    fun _ _ alike => sim.alike_restore same alike
  have switch := (((Switch.respects_read sim).after back).map some).andThen
    (sim.keeps_skipWhile (· != 0x0A))
  exact .ite _ switch (.pure none)

theorem respects_readBody (accepts : String → Bool) (header : Header) :
    sim.Respects (readBody accepts header) (readBody accepts header) := by
  intro c d alike
  have place := sim.samePlace_mark alike
  have taken := fun details => (respects_readSwitch sim place details).bind fun switch =>
    (respects_readLines sim).map fun lines =>
      Record.event
        { kind := if switch.isSome then .scheduler else .cpu
          command := header.command
          pid := header.pid
          tid := header.tid
          cpu := header.cpu
          time := header.time
          timeProperty := header.timeProperty
          name := header.name
          details, switch
          frames := lines.filterMap frameOfLine ++ [.thread header.tid, .process header.command]
          truncated := lines.contains .cut }
  have refused : sim.Respects (fun c => (Record.filtered, skipToRecordEnd c))
      (fun d => (Record.filtered, skipToRecordEnd d)) :=
    (Respects.pure Record.filtered).andThen (keeps_skipToRecordEnd sim)
  have body := (sim.respects_readUntil (· == 0x0A)).bind fun details =>
    Respects.ite (accepts header.name) (taken (trim (ofBytes details))) refused
  simp only [readBody]
  exact body alike

theorem respects_read? (accepts : String → Bool) :
    sim.Respects (read? accepts) (read? accepts) := by
  have record := (Header.respects_read sim).bind fun header =>
    (respects_readBody sim accepts header).map some
  have next := Respects.branch sim.atEnd_eq (.pure none) record
  intro c d alike
  simp only [read?]
  exact (next.after (sim.keeps_skipWhile isWhitespaceByte)) alike

theorem respects_readAll (accepts : String → Bool) :
    sim.Respects (readAll accepts) (readAll accepts) := by
  intro c d alike
  -- on the records of the first cursor: the second finds a record exactly when it does
  fun_induction readAll accepts c generalizing d with
  | case1 c after found =>
    obtain ⟨same, next⟩ := respects_read? sim accepts alike
    rw [found] at same next
    rw [readAll_none (Prod.ext same.symm rfl)]
    exact ⟨rfl, next⟩
  | case2 c record after found records rest more =>
    rename_i ih
    obtain ⟨same, next⟩ := respects_read? sim accepts alike
    rw [found] at same next
    obtain ⟨others, last⟩ := ih next
    rw [more] at others last
    rw [readAll_some (Prod.ext same.symm rfl)]
    exact ⟨congrArg (record :: ·) others, last⟩

theorem keeps_skipByteOrderMark : sim.Keeps skipByteOrderMark skipByteOrderMark := by
  have three := (sim.keeps_advance.andThen sim.keeps_advance).andThen sim.keeps_advance
  have last := (sim.respects_peek 2).bindKeeps fun third =>
    Keeps.branch (fun _ _ _ => Eq.refl (third == 0xBF)) three sim.keeps_id
  have second := (sim.respects_peek 1).bindKeeps fun second =>
    Keeps.branch (fun _ _ _ => Eq.refl (second == 0xBB)) last sim.keeps_id
  exact .branch (sim.agrees_current (· == 0xEF)) second sim.keeps_id

def ofReader (accepts : String → Bool) (reader : Reader) (capacity : Nat) : List Record :=
  (readAll accepts (skipByteOrderMark (StreamCursor.ofReader reader capacity))).1

def ofBuffer (accepts : String → Bool) (bytes : List UInt8) : List Record :=
  (readAll accepts (skipByteOrderMark (StreamCursor.ofBytes ⟨bytes.toArray⟩))).1

theorem ofReader_eq {reader : Reader} (calm : reader.Faultless) (seeks : reader.canSeek = true)
    (accepts : String → Bool) (capacity : Nat) :
    ofReader accepts reader capacity = ofText accepts reader.ahead := by
  have settled := StreamCursor.settled_ofReader calm seeks capacity 0
  have text : (StreamCursor.ofReader reader capacity).overText reader.content =
      ⟨reader.ahead, reader.start, 0⟩ := by
    simp only [StreamCursor.overText, StreamCursor.position_ofReader calm,
      StreamCursor.sentinel_ofReader, Reader.ahead]
  have same := ((respects_readAll (StreamCursor.simulation reader.content) accepts).after
    (keeps_skipByteOrderMark _)) ⟨settled, text.symm⟩
  rw [ofReader, same.1, readAll_skipByteOrderMark rfl, ofText_eq]

theorem ofBuffer_eq (accepts : String → Bool) (bytes : List UInt8) :
    ofBuffer accepts bytes = ofText accepts bytes :=
  ofReader_eq (Reader.faultless_ofBytes ⟨bytes.toArray⟩) rfl accepts _

end Record

end ProfileTrace
