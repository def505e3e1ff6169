import Std.Data.HashMap

/-! Tables of entries with distinct keys. An entry's number is its place in the table and
never changes: adding an entry whose key is there already gives the number of the one
that is there. -/

namespace ProfileTrace

structure Table {α κ : Type} [BEq κ] [Hashable κ] (keyOf : α → κ) where
  entries : Array α
  places : Std.HashMap κ Nat
  places_eq_some_iff : ∀ key place,
    places[key]? = some place ↔ (entries[place]?).map keyOf = some key

namespace Table

variable {α κ : Type} [BEq κ] [Hashable κ] {keyOf : α → κ}

def empty : Table keyOf where
  entries := #[]
  places := ∅
  places_eq_some_iff := by simp

@[simp] theorem entries_empty : (empty : Table keyOf).entries = #[] := rfl

theorem place_eq_of_key_eq (table : Table keyOf) {i j : Nat} {a b : α}
    (first : table.entries[i]? = some a) (second : table.entries[j]? = some b)
    (same : keyOf a = keyOf b) : i = j := by
  have atI := (table.places_eq_some_iff (keyOf a) i).mpr (by simp [first])
  have atJ := (table.places_eq_some_iff (keyOf a) j).mpr (by simp [second, same])
  rw [atI] at atJ
  exact Option.some.inj atJ

def insert [LawfulBEq κ] (entry : α) (table : Table keyOf) : Nat × Table keyOf :=
  match found : table.places[keyOf entry]? with
  | some place => (place, table)
  | none =>
      (table.entries.size,
        { entries := table.entries.push entry
          places := table.places.insert (keyOf entry) table.entries.size
          places_eq_some_iff := by
            intro key place
            rw [Std.HashMap.getElem?_insert, Array.getElem?_push]
            have absent : ∀ i : Nat, (table.entries[i]?).map keyOf ≠ some (keyOf entry) := by
              intro i there
              rw [(table.places_eq_some_iff _ i).mpr there] at found
              simp at found
            by_cases same : keyOf entry = key
            · subst same
              by_cases last : place = table.entries.size
              · simp [last]
              · simp only [beq_self_eq_true, if_true, Option.some.injEq, last, if_false]
                constructor
                · intro equal
                  exact absurd equal.symm last
                · intro there
                  exact absurd there (absent place)
            · simp only [beq_iff_eq, same, if_false]
              rw [table.places_eq_some_iff key place]
              by_cases last : place = table.entries.size
              · subst last
                simp [same]
              · simp [last] })

end Table

end ProfileTrace
