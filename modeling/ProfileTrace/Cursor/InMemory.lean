import ProfileTrace.Cursor.Basic

/-! A cursor over a text that is in memory as a whole: the bytes ahead and how many
were passed. Nothing it does can fail. -/

namespace ProfileTrace

structure TextCursor where
  rest : List UInt8
  position : Nat := 0
  sentinel : UInt8 := 0

namespace TextCursor

def current (c : TextCursor) : UInt8 := c.rest.headD c.sentinel

def atEnd (c : TextCursor) : Bool := c.rest.isEmpty

def advance (c : TextCursor) : Bool × TextCursor :=
  match c.rest with
  | [] => (false, c)
  | _ :: rest => (!rest.isEmpty, { c with rest := rest, position := c.position + 1 })

structure Place where
  position : Nat
  rest : List UInt8

instance : Cursor TextCursor where
  Mark := Place
  current := current
  atEnd := atEnd
  position := position
  limit c := c.position + c.rest.length
  sentinel := sentinel
  advance := advance
  peek n c := ((c.rest[n]?).getD c.sentinel, c)
  mark c := ⟨c.position, c.rest⟩
  restore place c := { c with position := place.position, rest := place.rest }
  position_lt_limit := by
    rintro ⟨rest, position, sentinel⟩ within
    cases rest with
    | nil => simp [atEnd] at within
    | cons b rest => simp
  limit_advance := by
    rintro ⟨rest, position, sentinel⟩
    cases rest with
    | nil => simp [advance]
    | cons b rest => simp only [advance, List.length_cons]; omega
  position_advance := by
    rintro ⟨rest, position, sentinel⟩
    cases rest <;> simp [advance, atEnd]
  fst_advance := by
    rintro ⟨rest, position, sentinel⟩
    cases rest <;> simp [advance, atEnd]
  limit_peek _ _ := rfl
  position_peek _ _ := rfl
  atEnd_peek _ _ within := within
  current_peek _ _ _ := rfl
  limit_restore _ := rfl
  position_restore _ _ := Nat.le_refl _

end TextCursor

end ProfileTrace
