import ProfileTrace.Proofs.Chunk.SinglePass
import ProfileTrace.Proofs.Chunk.Written

/-! How many events the chunks of a trace hold. A record that is cut keeps its one event as
long as the cut is inside it: the kept part has begun a record, and what follows does not begin
another. Then the marked line is a line of that record's stack. -/

namespace ProfileTrace
open Record (eventsOfText headings layoutsOf Unbroken ofText ofText_eq)

theorem Record.eventsOfText_eq (text : List UInt8) :
    eventsOfText text = (layoutsOf text).map RecordLayout.event := by
  have read : ∀ layout : RecordLayout,
      (layout.record fun _ => true).event? = some layout.event := fun _ => rfl
  rw [eventsOfText, ofText_eq, List.filterMap_map]
  simp only [Function.comp_def, read, List.filterMap_eq_map']

theorem Record.ofText_eq_nil_iff (text : List UInt8) :
    ofText (fun _ => true) text = [] ↔ layoutsOf text = [] := by
  rw [ofText_eq, List.map_eq_nil_iff]

theorem Record.length_layoutsOf_markCut {kept : List UInt8} (unbroken : Unbroken kept)
    (some : layoutsOf kept ≠ []) :
    (layoutsOf (Chunk.markCut kept)).length = (layoutsOf kept).length := by
  obtain ⟨before, marked, same, unbroken⟩ := exists_markCut unbroken
  rw [← same] at some ⊢
  obtain ⟨others, last, whole, extended⟩ := endsInside_of_unbroken unbroken some
  have closing : layouts [[]] = [] := by rw [layouts_blank rfl, layouts_nil]
  have added := extended [cutText] (by decide)
  rw [marked, layoutsOf_append_feed, linesOf_cutLine,
    show [cutText, []] = [cutText] ++ [[]] from rfl, ← List.append_assoc, layouts_append _ rfl,
    added, closing, List.append_nil, layoutsOf, whole, List.length_append, List.length_append]
  rfl

namespace ShortCut

/-- A line that begins with the sentinel follows the cut. -/
def beforeNul (cut : ShortCut) : Bool :=
  cut.kept.getLast? == some 0x0A && cut.rest.head? == some 0

/-- The cut is inside a record, one that the kept part begins and that the rest goes on with. -/
def InsideRecord (cut : ShortCut) : Prop :=
  ofText (fun _ => true) cut.kept ≠ [] ∧ cut.beforeNul = false

end ShortCut

theorem Handout.length_of_cut {capacity : Nat} (least : leastCapacity ≤ capacity)
    {ahead bytes left : List UInt8} {cut : ShortCut}
    (handout : Handout capacity ahead bytes (some cut) left) (some : layoutsOf cut.kept ≠ []) :
    (layoutsOf bytes).length + (layoutsOf left).length + cut.beforeNul.toNat =
      (layoutsOf ahead).length := by
  cases handout with
  | @afterLine kept rest whole ended header unbroken going =>
    have marked := Record.length_layoutsOf_markCut unbroken some
    obtain ⟨before, rfl⟩ := List.getLast?_eq_some_iff.mp ended
    have joined : ahead = before ++ 0x0A :: rest := by simp [whole]
    obtain ⟨b, begins, text⟩ : ∃ b, rest.head? = Option.some b ∧ Cut.isLineBreak b = false := by
      cases head : rest.head? with
      | none => simp [head] at going
      | some b => exact ⟨b, rfl, by simpa [head] using going⟩
    -- a line that begins with the sentinel ends a record for the reader, but not for the cutter
    by_cases nul : b = 0
    · have counted : (⟨before ++ [0x0A], rest⟩ : ShortCut).beforeNul = true := by
        simp [ShortCut.beforeNul, begins, nul]
      obtain ⟨lost, apart⟩ := Record.layoutsOf_cut_beforeNul before (nul ▸ begins)
      rw [marked, counted, joined, apart, Record.layoutsOf_append_last_feed, List.length_append,
        List.length_cons, Bool.toNat_true]
      omega
    · have counted : (⟨before ++ [0x0A], rest⟩ : ShortCut).beforeNul = false := by
        simp [ShortCut.beforeNul, begins, nul]
      rw [Record.layoutsOf_append_last_feed] at some
      obtain ⟨others, last, more, cut, uncut⟩ := Record.layoutsOf_cut_afterLine
        (Record.endsInside_of_unbroken unbroken some)
        (Record.not_closes_head?_linesOf begins text nul)
      rw [counted, joined, cut, uncut, List.length_append, List.length_append, List.length_cons,
        List.length_cons, List.length_nil, Bool.toNat_false]
      omega
  | @insideLine kept rest whole long noFeed unbroken =>
    have marked := Record.length_layoutsOf_markCut unbroken some
    have long : 3 ≤ kept.length := by
      simp only [leastCapacity, historyLength] at least long
      omega
    have unended : kept.getLast? ≠ Option.some 0x0A := fun ended =>
      some (Record.layoutsOf_of_last_feed noFeed ended)
    have counted : (⟨kept, rest⟩ : ShortCut).beforeNul = false := by
      simp [ShortCut.beforeNul, unended]
    rw [marked, counted, whole, Record.length_layoutsOf_cut_insideLine long noFeed some rest]
    rfl

theorem Handout.cutLine_mem_headings_iff {capacity : Nat} {ahead bytes left : List UInt8}
    {cut : ShortCut} (handout : Handout capacity ahead bytes (some cut) left) :
    Chunk.cutLine ∈ headings bytes ↔ layoutsOf cut.kept = [] := by
  cases handout with
  | afterLine whole ended header unbroken going =>
    exact Record.cutLine_mem_headings_iff unbroken
  | insideLine whole long noFeed unbroken =>
    exact Record.cutLine_mem_headings_iff unbroken

/-- Chunks count the records of the text that they hand out, but for one at each cut that a line
beginning with the sentinel follows. -/
theorem Handouts.length_layoutsOf {capacity : Nat} (least : leastCapacity ≤ capacity)
    {ahead : List UInt8} {chunks : List Chunk} {cuts : List ShortCut}
    (run : Handouts capacity ahead chunks cuts)
    (some : ∀ cut ∈ cuts, layoutsOf cut.kept ≠ []) :
    (chunks.flatMap fun chunk => layoutsOf chunk.bytes).length + cuts.countP ShortCut.beforeNul =
      (layoutsOf ahead).length := by
  induction run with
  | done => rw [Record.layoutsOf_nil]; rfl
  | @next ahead left chunk cut? chunks cuts handout truncated others ih =>
    have later := ih fun cut among => some cut (List.mem_append_right _ among)
    rw [List.flatMap_cons, List.length_append, List.countP_append]
    cases cut? with
    | none =>
      have apart := handout.layoutsOf_of_clean
      rw [apart, List.length_append, ← later]
      simp only [Option.toList_none, List.countP_nil]
      omega
    | some cut =>
      have here := handout.length_of_cut least (some cut (by simp))
      have one : (Option.some cut).toList.countP ShortCut.beforeNul = cut.beforeNul.toNat := by
        cases same : cut.beforeNul <;> simp [same]
      rw [one, ← here, ← later]
      omega

theorem Handouts.cutLine_not_mem_headings_iff {capacity : Nat} {ahead : List UInt8}
    {chunks : List Chunk} {cuts : List ShortCut} (run : Handouts capacity ahead chunks cuts) :
    (∀ chunk ∈ chunks, chunk.truncated = true → Chunk.cutLine ∉ headings chunk.bytes) ↔
      ∀ cut ∈ cuts, layoutsOf cut.kept ≠ [] := by
  induction run with
  | done => simp
  | @next ahead left chunk cut? chunks cuts handout truncated others ih =>
    cases cut? with
    | none => simp [truncated, ih]
    | some cut =>
      have here := handout.cutLine_mem_headings_iff
      simp [truncated, ih, here]

/-- Chunked reading keeps the number of events, and never reads the marked line of a cut as a
header, exactly when every cut is inside a record. -/
theorem chunked_event_count_iff {reader : Reader} (calm : reader.Faultless) (windowLength : Nat) :
    (((Feed.ofReader reader windowLength).chunks.1.flatMap fun chunk =>
          eventsOfText chunk.bytes).length = (eventsOfText reader.ahead).length ∧
        ∀ chunk ∈ (Feed.ofReader reader windowLength).chunks.1,
          chunk.truncated = true → Chunk.cutLine ∉ headings chunk.bytes) ↔
      ∀ cut ∈ (Feed.ofReader reader windowLength).cuts, cut.InsideRecord := by
  have run := (Feed.reads_ofReader calm windowLength).handouts.1
  rw [Feed.ahead_ofReader calm] at run
  have least : leastCapacity ≤ max windowLength leastCapacity := Nat.le_max_right _ _
  rw [run.cutLine_not_mem_headings_iff]
  have events : ((Feed.ofReader reader windowLength).chunks.1.flatMap fun chunk =>
      eventsOfText chunk.bytes).length =
        ((Feed.ofReader reader windowLength).chunks.1.flatMap fun chunk =>
          layoutsOf chunk.bytes).length := by
    simp only [Record.eventsOfText_eq, ← List.map_flatMap, List.length_map]
  rw [events, Record.eventsOfText_eq, List.length_map]
  constructor
  · rintro ⟨same, some⟩ cut among
    have counted := run.length_layoutsOf least some
    have none : (Feed.ofReader reader windowLength).cuts.countP ShortCut.beforeNul = 0 := by omega
    refine ⟨?_, by simpa using List.countP_eq_zero.mp none cut among⟩
    rw [Ne, Record.ofText_eq_nil_iff]
    exact some cut among
  · intro inside
    have some : ∀ cut ∈ (Feed.ofReader reader windowLength).cuts, layoutsOf cut.kept ≠ [] := by
      intro cut among
      have := (inside cut among).1
      rwa [Ne, Record.ofText_eq_nil_iff] at this
    have counted := run.length_layoutsOf least some
    have none : (Feed.ofReader reader windowLength).cuts.countP ShortCut.beforeNul = 0 := by
      apply List.countP_eq_zero.mpr
      intro cut among
      simp [(inside cut among).2]
    exact ⟨by omega, some⟩

theorem Handouts.cuts_eq_nil_iff {capacity : Nat} {ahead : List UInt8} {chunks : List Chunk}
    {cuts : List ShortCut} (run : Handouts capacity ahead chunks cuts) :
    cuts = [] ↔ ∀ chunk ∈ chunks, chunk.truncated = false := by
  induction run with
  | done => simp
  | @next ahead left chunk cut? chunks cuts handout truncated others ih =>
    cases cut? <;> simp [truncated, ih]

theorem Handout.insideRecord {capacity : Nat} (least : leastCapacity ≤ capacity)
    {ahead bytes left : List UInt8} {cut? : Option ShortCut}
    (handout : Handout capacity ahead bytes cut? left) {records : List RecordLayout}
    (written : Written capacity records ahead) :
    (∃ later, Written capacity later left) ∧ ∀ cut ∈ cut?, cut.InsideRecord := by
  cases handout with
  | clean whole ended begins => exact ⟨written.of_clean whole ended begins, by simp⟩
  | @afterLine kept rest whole ended header unbroken going =>
    obtain ⟨before, rfl⟩ := List.getLast?_eq_some_iff.mp ended
    have joined : ahead = before ++ 0x0A :: rest := by simp [whole]
    obtain ⟨some, goes, left⟩ := written.of_afterLine joined header unbroken going
    have noNul : rest.head? ≠ Option.some 0 := by
      intro nul
      rw [Record.closes_head?_linesOf_nul nul] at goes
      cases goes
    refine ⟨left, ?_⟩
    intro cut same
    obtain rfl := Option.some.inj same
    constructor
    · rwa [Ne, Record.ofText_eq_nil_iff, Record.layoutsOf_append_last_feed]
    · simp [ShortCut.beforeNul, noNul]
  | insideLine whole long noFeed unbroken =>
    exact absurd (written.not_insideLine least whole long) noFeed

theorem Handouts.insideRecord {capacity : Nat} (least : leastCapacity ≤ capacity)
    {ahead : List UInt8} {chunks : List Chunk} {cuts : List ShortCut}
    (run : Handouts capacity ahead chunks cuts) {records : List RecordLayout}
    (written : Written capacity records ahead) : ∀ cut ∈ cuts, cut.InsideRecord := by
  induction run generalizing records with
  | done => simp
  | next handout truncated others ih =>
    obtain ⟨⟨later, left⟩, here⟩ := handout.insideRecord least written
    intro cut among
    rcases List.mem_append.mp among with first | rest
    · exact here cut (Option.mem_toList.mp first)
    · exact ih left cut rest

def deepRecord : RecordLayout where
  header := [0x61, 0x20, 0x31, 0x20, 0x5B, 0x30, 0x5D, 0x20, 0x32, 0x2E, 0x35, 0x3A, 0x20, 0x78, 0x3A]
  lines := List.replicate 200 [0x20, 0x66, 0x20, 0x67, 0x20, 0x28, 0x6D, 0x29]

theorem wellFormed_deepRecord : deepRecord.WellFormed where
  begins := ⟨0x61, rfl, by decide⟩
  noFeed := by decide
  stack line among := by
    rw [List.eq_of_mem_replicate among]
    exact ⟨by decide, ⟨0x20, rfl, by decide, by decide⟩, by decide⟩

theorem chunked_event_count_iff_deepRecord :
    (Reader.ofBytes ⟨deepRecord.bytes.toArray⟩).Faultless ∧
      (Feed.ofReader (Reader.ofBytes ⟨deepRecord.bytes.toArray⟩) 0).cuts ≠ [] ∧
      (∀ cut ∈ (Feed.ofReader (Reader.ofBytes ⟨deepRecord.bytes.toArray⟩) 0).cuts,
        cut.InsideRecord) ∧
      ((Feed.ofReader (Reader.ofBytes ⟨deepRecord.bytes.toArray⟩) 0).chunks.1.flatMap fun chunk =>
          eventsOfText chunk.bytes).length = (eventsOfText deepRecord.bytes).length := by
  have calm := Reader.faultless_ofBytes ⟨deepRecord.bytes.toArray⟩
  have ahead : (Reader.ofBytes ⟨deepRecord.bytes.toArray⟩).ahead = deepRecord.bytes := rfl
  have run := (Feed.reads_ofReader calm 0).handouts.1
  rw [Feed.ahead_ofReader calm, ahead] at run
  have written : Written (max 0 leastCapacity) [deepRecord] deepRecord.bytes :=
    written_flatMap (by simpa using wellFormed_deepRecord) (by decide +kernel) (by simp)
      (by decide +kernel)
  have inside := run.insideRecord (Nat.le_max_right _ _) written
  refine ⟨calm, ?_, inside, ((chunked_event_count_iff calm 0).mpr inside).1⟩
  rw [Ne, run.cuts_eq_nil_iff]
  intro whole
  have tiles := Feed.tiles_chunks calm 0
  rw [ahead] at tiles
  obtain ⟨chunk, among, short⟩ := tiles.exists_truncated (by decide +kernel) (by decide +kernel)
  rw [whole chunk among] at short
  cases short

end ProfileTrace
