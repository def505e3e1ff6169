import ProfileTrace.Record

/-! Counts of records. They add up whatever parts the records are counted in, and in whatever
order. -/

namespace ProfileTrace

namespace RecordCounts

theorem merge_assoc (a b c : RecordCounts) : (a.merge b).merge c = a.merge (b.merge c) := by
  simp only [merge, Nat.add_assoc]

@[simp] theorem empty_merge (a : RecordCounts) : ({} : RecordCounts).merge a = a := by
  simp [merge]

@[simp] theorem merge_empty (a : RecordCounts) : a.merge {} = a := by
  simp [merge]

theorem foldl_merge {α : Type} (counts : α → RecordCounts) (total : RecordCounts) (all : List α) :
    all.foldl (fun total one => total.merge (counts one)) total =
      total.merge (all.foldl (fun total one => total.merge (counts one)) {}) := by
  induction all generalizing total with
  | nil => simp
  | cons one all ih =>
    rw [List.foldl_cons, List.foldl_cons, ih, ih (({} : RecordCounts).merge (counts one)),
      empty_merge, merge_assoc]

end RecordCounts

namespace Record

theorem countAll_append (first second : List Record) :
    countAll (first ++ second) = (countAll first).merge (countAll second) := by
  rw [countAll, List.foldl_append, RecordCounts.foldl_merge]
  rfl

/-- The counts of records taken in parts merge to those of all. -/
theorem countAll_flatten (parts : List (List Record)) :
    (parts.map countAll).foldl RecordCounts.merge {} = countAll parts.flatten := by
  induction parts with
  | nil => rfl
  | cons part parts ih =>
    have apart := RecordCounts.foldl_merge id (countAll part) (parts.map countAll)
    rw [List.map_cons, List.foldl_cons, RecordCounts.empty_merge, List.flatten_cons,
      countAll_append, ← ih]
    exact apart

theorem countAll_singleton (record : Record) : countAll [record] = record.counts := by
  rw [countAll, List.foldl_cons, List.foldl_nil, RecordCounts.empty_merge]

theorem countAll_perm {first second : List Record} (same : first.Perm second) :
    countAll first = countAll second := by
  apply same.foldl_eq'
  intro record _ other _ total
  simp only [RecordCounts.merge, RecordCounts.mk.injEq]
  omega

end Record

end ProfileTrace
