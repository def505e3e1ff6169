import Mathlib.Order.Bounds.Basic
import Mathlib.Tactic.IntervalCases
import Mathlib.Tactic.NormNum
import ProfileTrace.Proofs.Chunk.Window

/-! The search for a cut misses nothing, wherever its scans begin. A record end behind the first
byte of a window is found if there is one. Otherwise the window is cut after one of its lines, not
before the end of the first that holds text, and where no such line ends it is kept as a whole. -/

namespace ProfileTrace.Cut
open Record (Unbroken)

def HasEnd (window : List UInt8) : Prop :=
  ∃ index, 1 ≤ index ∧ index < window.length - 1 ∧ isRecordEnd window index = true

/-- The line feeds at or after the first byte that is no line break. -/
def textFeeds (window : List UInt8) : Set Nat :=
  {index | window.findIdx (fun b => !isLineBreak b) ≤ index ∧ window[index]? = some 0x0A}

/-- The cut that is due in a window: after a record end, or else after a line and behind the first
that holds text, or else at the end of the window. -/
structure IsDue (window : List UInt8) (cut : Cut) : Prop where
  clean : HasEnd window → ∃ length, cut = .clean length ∧
    isRecordEnd window (length - 1) = true ∧ 2 ≤ length ∧ length < window.length
  afterLine : ¬HasEnd window → ∀ headerEnd, IsLeast (textFeeds window) headerEnd →
    ∃ length, cut = .afterLine length ∧ window[length - 1]? = some 0x0A ∧ headerEnd < length
  insideLine : ¬HasEnd window → textFeeds window = ∅ → cut = .insideLine window.length

theorem unbroken_iff_not_hasEnd (window : List UInt8) : Unbroken window ↔ ¬HasEnd window := by
  constructor
  · rintro unbroken ⟨index, positive, -, ends⟩
    rw [unbroken index positive] at ends
    cases ends
  · intro none index positive
    refine Bool.eq_false_iff.mpr fun ends => none ?_
    have inside := lt_of_isRecordEnd ends
    exact ⟨index, positive, by omega, ends⟩

theorem dropWhile_isLineBreak (window : List UInt8) :
    window.dropWhile isLineBreak = window.drop (window.findIdx fun b => !isLineBreak b) :=
  List.dropWhile_eq_drop_findIdx_not

theorem exists_mem_textFeeds {window kept left : List UInt8} (whole : window = kept ++ left)
    (header : 0x0A ∈ kept.dropWhile isLineBreak) : ∃ index ∈ textFeeds window, index < kept.length := by
  rw [dropWhile_isLineBreak] at header
  obtain ⟨ahead, place⟩ := List.mem_iff_getElem?.mp header
  rw [List.getElem?_drop] at place
  obtain ⟨inside, -⟩ := List.getElem?_eq_some_iff.mp place
  have text : kept.findIdx (fun b => !isLineBreak b) < kept.length := by omega
  have same : window.findIdx (fun b => !isLineBreak b) = kept.findIdx fun b => !isLineBreak b := by
    rw [whole, List.findIdx_append, if_pos text]
  refine ⟨kept.findIdx (fun b => !isLineBreak b) + ahead, ⟨?_, ?_⟩, inside⟩
  · rw [same]
    exact Nat.le_add_right _ _
  · rw [whole, List.getElem?_append_left inside, place]

theorem textFeeds_eq_empty {window : List UInt8} (noFeed : 0x0A ∉ window.dropWhile isLineBreak) :
    textFeeds window = ∅ := by
  refine Set.eq_empty_of_forall_notMem fun index ⟨behind, feed⟩ => noFeed ?_
  obtain ⟨ahead, rfl⟩ := Nat.exists_eq_add_of_le behind
  rw [dropWhile_isLineBreak]
  exact List.mem_iff_getElem?.mpr ⟨ahead, by rw [List.getElem?_drop, feed]⟩

theorem isRecordEnd_of_clean {window kept left : List UInt8} (whole : window = kept ++ left)
    (ended : kept.getLast? = some 0x0A) (begins : left.head?.any isLineBreak = true) :
    isRecordEnd window (kept.length - 1) = true := by
  obtain ⟨before, rfl⟩ := List.getLast?_eq_some_iff.mp ended
  obtain ⟨b, rest, rfl⟩ : ∃ b rest, left = b :: rest := by
    cases left with
    | nil => simp at begins
    | cons b rest => exact ⟨b, rest, rfl⟩
  have here : window.drop ((before ++ [0x0A]).length - 1) = 0x0A :: b :: rest := by
    rw [whole, List.length_append, List.length_singleton, Nat.add_sub_cancel, List.append_assoc,
      List.drop_left]
    rfl
  rw [isRecordEnd, here]
  simpa [startsAtRecordEnd, isLineBreak] using begins

theorem le_leftOut {bound scanEnd : Nat} {starts : List Nat} (inside : bound ≤ scanEnd)
    (all : ∀ start ∈ starts, bound ≤ start) : bound ≤ leftOut scanEnd starts := by
  induction starts generalizing scanEnd with
  | nil => exact inside
  | cons start starts ih =>
    have first := all start List.mem_cons_self
    exact ih (Nat.le_min.mpr ⟨first, inside⟩) fun later among =>
      all later (List.mem_cons_of_mem start among)

theorem two_le_of_clean {window : List UInt8} {starts : List Nat} (some : window ≠ [])
    (positive : ∀ start ∈ starts, 1 ≤ start) {length : Nat}
    (found : ofScans starts window = .clean length) : 2 ≤ length := by
  have least : 1 ≤ leftOut window.length starts :=
    le_leftOut (List.length_pos_iff.mpr some) positive
  unfold ofScans at found
  simp only at found
  split at found
  next index scanned =>
    have behind := (mem_of_scanFromEach scanned).2
    injection found with same
    omega
  next =>
    split at found
    next index last =>
      have kept := (List.mem_filter.mp (List.mem_of_getLast? last)).2
      simp only [Bool.and_eq_true, decide_eq_true_eq] at kept
      injection found with same
      omega
    next =>
      unfold ofLines at found
      simp only at found
      split at found
      · cases found
      · cases found

theorem isDue_ofScans {window : List UInt8} {starts : List Nat} (some : window ≠ [])
    (positive : ∀ start ∈ starts, 1 ≤ start) : IsDue window (ofScans starts window) := by
  have explained := explains_ofScans starts window
  have second : ∀ length, ofScans starts window = .clean length → 2 ≤ length :=
    fun _ => two_le_of_clean some positive
  generalize ofScans starts window = cut at explained second
  cases explained with
  | @clean kept left whole ended begins =>
    have ends := isRecordEnd_of_clean whole ended begins
    have long := second kept.length rfl
    have inside := lt_of_isRecordEnd ends
    have here : HasEnd window := ⟨kept.length - 1, by omega, by omega, ends⟩
    exact ⟨fun _ => ⟨kept.length, rfl, ends, long, by omega⟩, fun none => absurd here none,
      fun none => absurd here none⟩
  | @afterLine kept left whole ended header unbroken =>
    have none := (unbroken_iff_not_hasEnd window).mp unbroken
    obtain ⟨feed, among, inside⟩ := exists_mem_textFeeds whole header
    refine ⟨fun here => absurd here none, fun _ headerEnd least => ?_, fun _ empty => ?_⟩
    · obtain ⟨before, rfl⟩ := List.getLast?_eq_some_iff.mp ended
      have first := least.2 among
      refine ⟨_, rfl, ?_, by omega⟩
      rw [whole, List.length_append, List.length_singleton, Nat.add_sub_cancel, List.append_assoc,
        List.getElem?_append_right (Nat.le_refl _), Nat.sub_self]
      rfl
    · rw [empty] at among
      cases among
  | insideLine noFeed unbroken =>
    have none := (unbroken_iff_not_hasEnd window).mp unbroken
    refine ⟨fun here => absurd here none, fun _ headerEnd least => ?_, fun _ _ => rfl⟩
    have among := least.1
    rw [textFeeds_eq_empty noFeed] at among
    cases among

theorem one_le_of_mem_scanStarts {length : Nat} (long : 3 ≤ length) {start : Nat}
    (among : start ∈ scanStarts length) : 1 ≤ start := by
  obtain ⟨scan, early, rfl⟩ := List.mem_map.mp among
  have early : scan < 6 := List.mem_range.mp early
  interval_cases scan <;> norm_num [scanStart] <;> omega

/-- Whichever places its scans begin at, as long as the first byte is none of them, the search
finds the cut that is due; and so it does from the fractions of the window. -/
theorem isDue_of_any_scans {window : List UInt8} (long : 3 ≤ window.length) :
    IsDue window (ofWindow window) ∧
      ∀ starts : List Nat, (∀ start ∈ starts, 1 ≤ start) → IsDue window (ofScans starts window) := by
  have some : window ≠ [] := List.ne_nil_of_length_pos (by omega)
  refine ⟨?_, fun starts positive => isDue_ofScans some positive⟩
  rw [ofWindow_eq]
  exact isDue_ofScans some fun start => one_le_of_mem_scanStarts long

/-- An empty line, a line of text, and a part of another. -/
def emptyLineFirst : List UInt8 := [0x0A, 0x0A, 0x61, 0x0A, 0x62]

theorem isDue_of_any_scans_emptyLineFirst :
    3 ≤ emptyLineFirst.length ∧ (∀ start ∈ [4, 2], 1 ≤ start) ∧
      IsDue emptyLineFirst (ofWindow emptyLineFirst) ∧
      IsDue emptyLineFirst (ofScans [4, 2] emptyLineFirst) ∧
      ofScans [4, 2] emptyLineFirst = afterLine 4 := by
  have long : 3 ≤ emptyLineFirst.length := by decide
  have positive : ∀ start ∈ [4, 2], 1 ≤ start := by decide
  obtain ⟨fractions, any⟩ := isDue_of_any_scans long
  exact ⟨long, positive, fractions, any [4, 2] positive, by decide⟩

end ProfileTrace.Cut
