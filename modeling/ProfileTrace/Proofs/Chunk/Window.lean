import ProfileTrace.Proofs.Record.Cutting

/-! What is known of the cut of a window. A clean cut is after a record. Any other comes about
only where no record ends past the first byte of the window; it is after a line that ends
behind the header, or else the header itself does not fit. -/

namespace ProfileTrace.Cut
open Record (Unbroken)

/-! ### Scans that begin anywhere -/

def scanFromEach (ends : List Nat) (scanEnd : Nat) : List Nat → Option Nat
  | [] => none
  | start :: starts =>
      (ends.find? fun at_ => min start scanEnd ≤ at_ && at_ < scanEnd).or
        (scanFromEach ends (min start scanEnd) starts)

def leftOut (scanEnd : Nat) (starts : List Nat) : Nat :=
  starts.foldl (fun scanEnd start => min start scanEnd) scanEnd

def ofLines (limit : Nat) (window : List UInt8) : Cut :=
  let feeds := lineFeedsFrom 0 window
  let content := (window.takeWhile isLineBreak).length
  match feeds.find? (content ≤ ·) with
  | none => insideLine window.length
  | some headerEnd =>
      afterLine
        (max (((feeds.find? (limit ≤ ·)).or feeds.getLast?).getD headerEnd) headerEnd + 1)

def ofScans (starts : List Nat) (window : List UInt8) : Cut :=
  let ends := recordEnds window
  let limit := leftOut window.length starts
  match scanFromEach ends window.length starts with
  | some found => clean (found + 1)
  | none =>
      match (ends.filter fun at_ => 1 ≤ at_ && at_ < limit).getLast? with
      | some found => clean (found + 1)
      | none => ofLines limit window

def scanStarts (length : Nat) : List Nat := (List.range scans).map (scanStart length)

theorem scanFrom_eq (ends : List Nat) (length scan scanEnd count : Nat) :
    scanFrom ends length scan scanEnd count =
      scanFromEach ends scanEnd ((List.range' scan count).map (scanStart length)) := by
  induction count generalizing scan scanEnd with
  | zero => rfl
  | succ count ih =>
    simp only [scanFrom, ih, List.range'_succ, List.map_cons, scanFromEach, Option.orElse_eq_or,
      Option.orElse_eq_orElse]

theorem scanLimit_eq (length : Nat) : scanLimit length = leftOut length (scanStarts length) := by
  rw [scanLimit, leftOut, scanStarts, List.foldl_map]

theorem ofRecord_eq (window : List UInt8) :
    ofRecord window = ofLines (leftOut window.length (scanStarts window.length)) window := by
  rw [← scanLimit_eq]
  simp only [ofRecord, ofLines]
  cases (lineFeedsFrom 0 window).find? ((window.takeWhile isLineBreak).length ≤ ·) with
  | none => rfl
  | some headerEnd => simp only [Option.orElse_eq_or, Option.orElse_eq_orElse]

theorem ofWindow_eq (window : List UInt8) :
    ofWindow window = ofScans (scanStarts window.length) window := by
  have scanned := scanFrom_eq (recordEnds window) window.length 0 window.length scans
  rw [← List.range_eq_range'] at scanned
  simp only [ofWindow, ofScans, scanned, ← scanLimit_eq, ofRecord_eq]
  rfl

theorem le_of_scanFromEach_eq_none {ends starts : List Nat} {scanEnd : Nat}
    (none : scanFromEach ends scanEnd starts = none) {index : Nat} (among : index ∈ ends)
    (begun : leftOut scanEnd starts ≤ index) : scanEnd ≤ index := by
  induction starts generalizing scanEnd with
  | nil => exact begun
  | cons start starts ih =>
    simp only [scanFromEach, Option.or_eq_none_iff] at none
    have later := ih none.2 begun
    by_contra before
    have found := List.find?_eq_none.mp none.1 index among
    simp only [Bool.and_eq_true, decide_eq_true_eq, not_and] at found
    exact found later (by omega)

theorem leftOut_le (scanEnd : Nat) (starts : List Nat) : leftOut scanEnd starts ≤ scanEnd := by
  induction starts generalizing scanEnd with
  | nil => exact Nat.le_refl scanEnd
  | cons start starts ih => exact Nat.le_trans (ih (min start scanEnd)) (Nat.min_le_right _ _)

theorem mem_of_scanFromEach {ends starts : List Nat} {scanEnd index : Nat}
    (found : scanFromEach ends scanEnd starts = some index) :
    index ∈ ends ∧ leftOut scanEnd starts ≤ index := by
  induction starts generalizing scanEnd with
  | nil => cases found
  | cons start starts ih =>
    simp only [scanFromEach, Option.or_eq_some_iff] at found
    rcases found with here | ⟨-, later⟩
    · have within := List.find?_some here
      simp only [Bool.and_eq_true, decide_eq_true_eq] at within
      exact ⟨List.mem_of_find?_eq_some here, Nat.le_trans (leftOut_le _ starts) within.1⟩
    · exact ih later

theorem lt_of_isRecordEnd {window : List UInt8} {index : Nat}
    (ends : isRecordEnd window index = true) : index + 1 < window.length := by
  by_contra outside
  have short : (window.drop index).length ≤ 1 := by
    rw [List.length_drop]
    omega
  rw [isRecordEnd] at ends
  rcases shape : window.drop index with _ | ⟨first, _ | ⟨second, rest⟩⟩
  · simp [shape, startsAtRecordEnd] at ends
  · simp [shape, startsAtRecordEnd] at ends
  · simp [shape] at short

/-- A window for which no clean cut is found holds no record end past its first byte. -/
theorem unbroken_of_not_found {window : List UInt8} {starts : List Nat}
    (scanned : scanFromEach (recordEnds window) window.length starts = none)
    (before : ((recordEnds window).filter fun at_ =>
      1 ≤ at_ && at_ < leftOut window.length starts).getLast? = none) : Unbroken window := by
  intro index positive
  by_contra ends
  have ends : isRecordEnd window index = true := by simpa using ends
  have among := mem_recordEnds.mpr ends
  have inside := lt_of_isRecordEnd ends
  by_cases early : index < leftOut window.length starts
  · have empty := List.getLast?_eq_none_iff.mp before
    have absent := List.filter_eq_nil_iff.mp empty index among
    simp [positive, early] at absent
  · have beyond := le_of_scanFromEach_eq_none scanned among (Nat.le_of_not_lt early)
    omega

/-! ### What is known of a cut -/

theorem mem_lineFeedsFrom {start index : Nat} {window : List UInt8} :
    index ∈ lineFeedsFrom start window ↔ start ≤ index ∧ window[index - start]? = some 0x0A := by
  induction window generalizing start with
  | nil => simp [lineFeedsFrom]
  | cons b rest ih =>
    by_cases here : index = start
    · subst here
      by_cases feed : b = 0x0A
      · simp [lineFeedsFrom, feed]
      · have beyond : index ∉ lineFeedsFrom (index + 1) rest := by
          rw [ih]
          omega
        simp [lineFeedsFrom, feed, beyond]
    · have skip : index ∈ lineFeedsFrom start (b :: rest) ↔
          index ∈ lineFeedsFrom (start + 1) rest := by
        simp only [lineFeedsFrom]
        split <;> simp [here]
      rw [skip, ih]
      constructor
      · rintro ⟨later, feed⟩
        refine ⟨by omega, ?_⟩
        rw [show index - start = index - (start + 1) + 1 by omega, List.getElem?_cons_succ]
        exact feed
      · rintro ⟨later, feed⟩
        refine ⟨by omega, ?_⟩
        rw [show index - start = index - (start + 1) + 1 by omega, List.getElem?_cons_succ] at feed
        exact feed

/-- What a cut says of the window. -/
inductive Explains (window : List UInt8) : Cut → Prop where
  | clean {kept left : List UInt8} (whole : window = kept ++ left)
      (ended : kept.getLast? = some 0x0A) (begins : left.head?.any isLineBreak = true) :
      Explains window (.clean kept.length)
  | afterLine {kept left : List UInt8} (whole : window = kept ++ left)
      (ended : kept.getLast? = some 0x0A) (header : 0x0A ∈ kept.dropWhile isLineBreak)
      (unbroken : Unbroken window) : Explains window (.afterLine kept.length)
  | insideLine (noFeed : 0x0A ∉ window.dropWhile isLineBreak) (unbroken : Unbroken window) :
      Explains window (.insideLine window.length)

theorem explains_clean {window : List UInt8} {index : Nat} (among : index ∈ recordEnds window) :
    Explains window (clean (index + 1)) := by
  have ends := mem_recordEnds.mp among
  rw [isRecordEnd] at ends
  rcases shape : window.drop index with _ | ⟨first, _ | ⟨second, rest⟩⟩
  · simp [shape, startsAtRecordEnd] at ends
  · simp [shape, startsAtRecordEnd] at ends
  · simp only [shape, startsAtRecordEnd, Bool.and_eq_true, Bool.or_eq_true, beq_iff_eq] at ends
    have whole : window = (window.take index ++ [0x0A]) ++ second :: rest := by
      rw [List.append_assoc, List.singleton_append, ← ends.1, ← shape, List.take_append_drop]
    have long := congrArg List.length shape
    have size : (window.take index ++ [(0x0A : UInt8)]).length = index + 1 := by
      simp only [List.length_drop, List.length_cons] at long
      simp only [List.length_append, List.length_take, List.length_singleton]
      omega
    rw [← size]
    refine .clean whole (by simp) ?_
    simpa [isLineBreak] using ends.2

theorem feed_mem_dropWhile {window : List UInt8} {index : Nat}
    (behind : (window.takeWhile isLineBreak).length ≤ index) (feed : window[index]? = some 0x0A) :
    0x0A ∈ (window.take (index + 1)).dropWhile isLineBreak := by
  have parts := List.takeWhile_append_dropWhile (p := isLineBreak) (l := window)
  have only : ∀ b ∈ window.takeWhile isLineBreak, isLineBreak b = true := fun b among =>
    List.mem_takeWhile_imp among
  have head := List.head?_dropWhile_not isLineBreak window
  generalize window.takeWhile isLineBreak = before at parts only behind
  generalize window.dropWhile isLineBreak = rest at parts head
  subst parts
  rw [List.getElem?_append_right behind] at feed
  rw [List.take_append, List.take_of_length_le (by omega), List.dropWhile_append_of_pos only]
  cases rest with
  | nil => simp at feed
  | cons b rest =>
    have first : ¬isLineBreak b = true := by simpa using head
    rw [show index + 1 - before.length = index - before.length + 1 by omega, List.take_succ_cons,
      List.dropWhile_cons_of_neg first, ← List.take_succ_cons]
    apply List.mem_iff_getElem?.mpr
    refine ⟨index - before.length, ?_⟩
    rw [List.getElem?_take, if_pos (by omega), feed]

theorem max_getD_mem {feeds : List Nat} {headerEnd : Nat} (first : headerEnd ∈ feeds) (limit : Nat) :
    max (((feeds.find? (limit ≤ ·)).or feeds.getLast?).getD headerEnd) headerEnd ∈ feeds := by
  by_cases before : ((feeds.find? (limit ≤ ·)).or feeds.getLast?).getD headerEnd ≤ headerEnd
  · rwa [Nat.max_eq_right before]
  · rw [Nat.max_eq_left (Nat.le_of_not_le before)]
    cases shape : (feeds.find? (limit ≤ ·)).or feeds.getLast? with
    | none => exact first
    | some later =>
      simp only [Option.or_eq_some_iff] at shape
      rcases shape with here | ⟨-, last⟩
      · exact List.mem_of_find?_eq_some here
      · exact List.mem_of_getLast? last

theorem explains_ofLines (limit : Nat) {window : List UInt8} (unbroken : Unbroken window) :
    Explains window (ofLines limit window) := by
  unfold ofLines
  simp only
  split
  next missing =>
    refine .insideLine ?_ unbroken
    intro feed
    obtain ⟨index, place⟩ := List.mem_iff_getElem?.mp feed
    have among : (window.takeWhile isLineBreak).length + index ∈ lineFeedsFrom 0 window := by
      refine mem_lineFeedsFrom.mpr ⟨Nat.zero_le _, ?_⟩
      rw [← TextCursor.drop_length_takeWhile, List.getElem?_drop] at place
      exact place
    have absent := List.find?_eq_none.mp missing _ among
    simp at absent
  next headerEnd found =>
    have behind : (window.takeWhile isLineBreak).length ≤ headerEnd := by
      simpa using List.find?_some found
    have first := List.mem_of_find?_eq_some found
    obtain ⟨index, same⟩ : ∃ index, max ((((lineFeedsFrom 0 window).find? (limit ≤ ·)).or
        (lineFeedsFrom 0 window).getLast?).getD headerEnd) headerEnd = index := ⟨_, rfl⟩
    have among := max_getD_mem first limit
    rw [same] at among ⊢
    have later : headerEnd ≤ index := same ▸ Nat.le_max_right _ _
    have feed : window[index]? = some 0x0A := by simpa using (mem_lineFeedsFrom.mp among).2
    obtain ⟨inside, byte⟩ := List.getElem?_eq_some_iff.mp feed
    have size : (window.take (index + 1)).length = index + 1 := by
      rw [List.length_take]
      omega
    rw [← size]
    refine .afterLine (List.take_append_drop (index + 1) window).symm ?_
      (feed_mem_dropWhile (Nat.le_trans behind later) feed) unbroken
    rw [List.take_add_one, feed]
    simp

theorem explains_ofScans (starts : List Nat) (window : List UInt8) :
    Explains window (ofScans starts window) := by
  unfold ofScans
  simp only
  split
  next index found => exact explains_clean (mem_of_scanFromEach found).1
  next scanned =>
    split
    next index found =>
      have among := List.mem_of_getLast? found
      exact explains_clean (List.mem_filter.mp among).1
    next before => exact explains_ofLines _ (unbroken_of_not_found scanned before)

theorem explains_ofWindow (window : List UInt8) : Explains window (ofWindow window) :=
  ofWindow_eq window ▸ explains_ofScans _ window

end ProfileTrace.Cut
