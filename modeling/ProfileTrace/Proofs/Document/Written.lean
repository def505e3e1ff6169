import Mathlib.Tactic.Choose
import ProfileTrace.Proofs.Document.Scanning

/-! Documents read back. Whatever blanks a layout puts between the tokens, the text of a document is
cut into the same tokens, and these are put together as the value of its tables. -/

namespace ProfileTrace

def Scalar.IsSpelled : Scalar → Prop
  | .number literal => Json.isNumber literal = true
  | .null | .text _ => True

def Row.IsSpelled (row : Row) : Prop := ∀ entry ∈ row, entry.2.IsSpelled

def Member.IsSpelled : Member → Prop
  | .scalar value => value.IsSpelled
  | .rows table => ∀ row ∈ table, Row.IsSpelled row

namespace Json

structure Layout.IsBlank (layout : Layout) : Prop where
  lineBreak : ∀ depth, ∀ c ∈ layout.lineBreak depth, isBlank c = true
  colon : ∃ blanks, layout.colon = ':' :: blanks ∧ ∀ c ∈ blanks, isBlank c = true

theorem isBlank_compact : compact.IsBlank where
  lineBreak depth := by simp [compact]
  colon := ⟨[], rfl, by simp⟩

theorem isBlank_pretty : pretty.IsBlank where
  lineBreak depth := by
    intro c among
    rcases List.mem_cons.mp among with rfl | space
    · rfl
    · rw [List.eq_of_mem_replicate space]
      rfl
  colon := ⟨[' '], rfl, by simp [isBlank]⟩

/-! ### Tokens of a text -/

section
variable {α : Type} {layout : Layout} {items : List α} {write : α → List Char}
  {tokens : α → List Token}

theorem ends_items (blank : layout.IsBlank) (depth : Nat)
    (ends : ∀ x ∈ items, Ends (write x) (tokens x)) (nonempty : items ≠ []) :
    Ends ([','].intercalate (items.map fun x => layout.lineBreak depth ++ write x))
      ([Token.mark ','].intercalate (items.map tokens)) := by
  have comma : Scans [','] [.mark ','] := scans_mark rfl rfl
  have item : ∀ x ∈ items, Ends (layout.lineBreak depth ++ write x) (tokens x) := fun x among =>
    (scans_blanks (blank.lineBreak depth)).append_ends (ends x among)
  induction items with
  | nil => exact absurd rfl nonempty
  | cons x items ih =>
    have first := item x List.mem_cons_self
    cases items with
    | nil => simpa using first
    | cons y items =>
      have others := ih (fun z among => ends z (List.mem_cons_of_mem _ among))
        (List.cons_ne_nil _ _) fun z among => item z (List.mem_cons_of_mem _ among)
      simp only [List.map_cons, List.intercalate_cons_cons] at others ⊢
      exact (first.append comma (by simp [Stops, isMark]) (by simp)).append_ends others

theorem scans_bracketed (blank : layout.IsBlank) (depth : Nat)
    (ends : ∀ x ∈ items, Ends (write x) (tokens x)) {opening closing : Char}
    (opens : isBlank opening = false ∧ isMark opening = true)
    (closes : isBlank closing = false ∧ isMark closing = true) :
    Scans (bracketed layout depth opening closing (items.map write))
      ([.mark opening] ++ [Token.mark ','].intercalate (items.map tokens) ++ [.mark closing]) := by
  have first := scans_mark opens.1 opens.2
  have last := scans_mark closes.1 closes.2
  unfold bracketed
  by_cases none : items = []
  · subst none
    exact first.append last
  · have inner := first.append_ends (ends_items blank (depth + 1) ends none)
    have outer := (scans_blanks (blank.lineBreak depth)).append last
    have stops : Stops (layout.lineBreak depth ++ [closing]) := by
      have spaces := blank.lineBreak depth
      revert spaces
      cases layout.lineBreak depth with
      | nil => simp [Stops, closes.2]
      | cons space others => simp +contextual [Stops]
    have whole := inner.append outer stops (by simp)
    simpa [none, Function.comp_def] using whole

theorem ends_member (blank : layout.IsBlank) (name : String) {chars : List Char}
    {value : List Token} (ends : Ends chars value) :
    Ends (member layout name chars) ([.text name, .mark ':'] ++ value) := by
  obtain ⟨blanks, same, spaces⟩ := blank.colon
  have colon : Scans (':' :: blanks) ([.mark ':'] ++ []) :=
    (scans_mark rfl rfl).append (scans_blanks spaces)
  rw [← same] at colon
  exact ((scans_quoted name).append colon).append_ends ends

end

/-! ### The value of tokens -/

/-- Wherever a value may come, the tokens are this one. -/
def Delivers (tokens : List Token) (value : Value) : Prop :=
  ∀ outer, (State.beforeValue outer).run tokens = some (.complete value outer)

section
variable {α β : Type} {items : List α} {tokens : α → List Token}

theorem run_intercalate {part : α → β} {before : List β → State} (after : List β → State)
    (each : ∀ x ∈ items, ∀ done, (before done).run (tokens x) = some (after (done ++ [part x])))
    (comma : ∀ done, (after done).run [.mark ','] = some (before done)) (nonempty : items ≠ [])
    (done : List β) :
    (before done).run ([Token.mark ','].intercalate (items.map tokens)) =
      some (after (done ++ items.map part)) := by
  induction items generalizing done with
  | nil => exact absurd rfl nonempty
  | cons x items ih =>
    have first := each x List.mem_cons_self done
    cases items with
    | nil => simpa using first
    | cons y items =>
      have others := ih (fun z among => each z (List.mem_cons_of_mem _ among))
        (List.cons_ne_nil _ _) (done ++ [part x])
      rw [List.map_cons, List.map_cons, List.intercalate_cons_cons, List.append_assoc,
        State.run_append first, State.run_append (comma _)]
      rw [List.map_cons] at others
      rw [others, List.append_assoc, List.singleton_append, List.map_cons (a := x)]

theorem exists_intercalate (separator first : List Token) (others : List (List Token)) :
    ∃ rest, separator.intercalate (first :: others) = first ++ rest := by
  cases others with
  | nil => exact ⟨[], by simp⟩
  | cons second others =>
    exact ⟨separator ++ separator.intercalate (second :: others),
      by rw [List.intercalate_cons_cons, List.append_assoc]⟩

theorem Delivers.run_firstItem {first : List Token} {item : Value} (delivers : Delivers first item)
    (rest : List Token) (outer : List Opening) :
    (State.firstItem outer).run (first ++ rest) =
      (State.beforeValue (.item [] :: outer)).run (first ++ rest) := by
  have some := delivers []
  cases first with
  | nil => cases some
  | cons token tokens =>
    have step : (State.firstItem outer).step token =
        (State.beforeValue (.item [] :: outer)).step token := by
      have other : token ≠ .mark ']' := by
        rintro rfl
        cases some
      simp [State.step]
    rw [List.cons_append, State.run_cons, State.run_cons, step]

variable {value : α → Value}

theorem delivers_list (delivers : ∀ x ∈ items, Delivers (tokens x) (value x)) :
    Delivers ([.mark '['] ++ [Token.mark ','].intercalate (items.map tokens) ++ [.mark ']'])
      (.list (items.map value)) := by
  intro outer
  cases items with
  | nil => rfl
  | cons x items =>
    have opened : (State.beforeValue outer).run [.mark '['] = some (.firstItem outer) := rfl
    have each : ∀ z ∈ x :: items, ∀ done, (State.beforeValue (.item done :: outer)).run (tokens z) =
        some (.afterItem (done ++ [value z]) outer) :=
      fun z among done => delivers z among (.item done :: outer)
    have inner := run_intercalate (.afterItem · outer) each (fun _ => rfl)
      (List.cons_ne_nil x items) []
    obtain ⟨rest, same⟩ := exists_intercalate [.mark ','] (tokens x) (items.map tokens)
    rw [List.map_cons, same, ← (delivers x List.mem_cons_self).run_firstItem, ← same] at inner
    rw [List.append_assoc, State.run_append opened, List.map_cons, State.run_append inner]
    rfl

def memberTokens (tokens : α → List Token) (entry : String × α) : List Token :=
  .text entry.1 :: .mark ':' :: tokens entry.2

theorem delivers_object {members : List (String × α)}
    (delivers : ∀ entry ∈ members, Delivers (tokens entry.2) (value entry.2)) :
    Delivers ([.mark '\x7b'] ++ [Token.mark ','].intercalate (members.map (memberTokens tokens)) ++
        [.mark '\x7d'])
      (.object (members.map fun entry => (entry.1, value entry.2))) := by
  intro outer
  cases members with
  | nil => rfl
  | cons first members =>
    have opened : (State.beforeValue outer).run [.mark '\x7b'] = some (.firstMember outer) := rfl
    have each : ∀ entry ∈ first :: members, ∀ done, (State.beforeName done outer).run
        (memberTokens tokens entry) =
        some (.afterMember (done ++ [(entry.1, value entry.2)]) outer) :=
      fun entry among done => delivers entry among (.member done entry.1 :: outer)
    have inner := run_intercalate (.afterMember · outer) each (fun _ => rfl)
      (List.cons_ne_nil first members) []
    -- the first name of an object is read as any other
    have same (rest : List Token) :
        (State.firstMember outer).run (memberTokens tokens first ++ rest) =
          (State.beforeName [] outer).run (memberTokens tokens first ++ rest) := rfl
    obtain ⟨rest, begins⟩ := exists_intercalate [.mark ','] (memberTokens tokens first)
      (members.map (memberTokens tokens))
    rw [List.map_cons, begins, ← same, ← begins] at inner
    rw [List.append_assoc, State.run_append opened, List.map_cons, State.run_append inner]
    rfl

end

/-! ### Values of a text -/

/-- The characters are cut into tokens that are this value. -/
def Writes (chars : List Char) (value : Value) : Prop :=
  ∃ tokens, Ends chars tokens ∧ Delivers tokens value

theorem Writes.read? {chars : List Char} {value : Value} (writes : Writes chars value) :
    read? chars = some value := by
  obtain ⟨tokens, ends, delivers⟩ := writes
  have scanned := ends [] (by simp [Stops])
  have run := delivers []
  rw [List.append_nil] at scanned
  simp only [Mode.tokens?, Option.map_some, List.append_nil] at scanned
  rw [Json.read?, scanned]
  simp only [Option.bind_eq_bind, Option.bind_some, run]
  rfl

namespace Value

def ofScalar : Scalar → Value
  | .null => .null
  | .number literal => .number literal
  | .text string => .text string

def ofRow (row : Row) : Value := .object (row.map fun (name, entry) => (name, ofScalar entry))

def ofMember : Member → Value
  | .scalar entry => ofScalar entry
  | .rows table => .list (table.map ofRow)

def ofTables (tables : JsonTables) : Value :=
  .object (tables.map fun (name, entry) => (name, ofMember entry))

end Value

theorem writes_scalar {scalar : Scalar} (spelled : scalar.IsSpelled) :
    Writes (ofScalar scalar) (.ofScalar scalar) := by
  cases scalar with
  | null => exact ⟨_, ends_null, fun _ => rfl⟩
  | number literal => exact ⟨_, ends_number spelled, fun _ => rfl⟩
  | text string => exact ⟨_, (scans_quoted string).ends, fun _ => rfl⟩

section
variable {α : Type} {layout : Layout} {write : α → List Char} {value : α → Value}

theorem writes_list (blank : layout.IsBlank) (depth : Nat) {items : List α}
    (each : ∀ x ∈ items, Writes (write x) (value x)) :
    Writes (bracketed layout depth '[' ']' (items.map write)) (.list (items.map value)) := by
  choose! tokens ends delivers using each
  exact ⟨_, (scans_bracketed blank depth ends ⟨rfl, rfl⟩ ⟨rfl, rfl⟩).ends, delivers_list delivers⟩

theorem writes_object (blank : layout.IsBlank) (depth : Nat) {members : List (String × α)}
    (each : ∀ entry ∈ members, Writes (write entry.2) (value entry.2)) :
    Writes (bracketed layout depth '\x7b' '\x7d'
        (members.map fun (name, x) => member layout name (write x)))
      (.object (members.map fun (name, x) => (name, value x))) := by
  have each : ∀ x, (∃ name, (name, x) ∈ members) → Writes (write x) (value x) :=
    fun x ⟨name, among⟩ => each (name, x) among
  choose! tokens ends delivers using each
  have named : ∀ entry ∈ members, Ends (member layout entry.1 (write entry.2))
      (memberTokens tokens entry) := fun entry among =>
    ends_member blank entry.1 (ends entry.2 ⟨entry.1, among⟩)
  exact ⟨_, (scans_bracketed blank depth named ⟨rfl, rfl⟩ ⟨rfl, rfl⟩).ends,
    delivers_object fun entry among => delivers entry.2 ⟨entry.1, among⟩⟩

end

section
variable {layout : Layout} (blank : layout.IsBlank)
include blank

theorem writes_row (depth : Nat) {row : Row} (spelled : row.IsSpelled) :
    Writes (ofRow layout depth row) (.ofRow row) :=
  writes_object blank depth fun entry among => writes_scalar (spelled entry among)

theorem writes_member (depth : Nat) {member : Member} (spelled : member.IsSpelled) :
    Writes (ofMember layout depth member) (.ofMember member) := by
  cases member with
  | scalar value => exact writes_scalar spelled
  | rows table =>
    exact writes_list blank depth fun row among => writes_row blank (depth + 1) (spelled row among)

/-- Whatever blanks there are between its tokens, a document reads back as the value of its
tables. -/
theorem read?_ofTables {tables : JsonTables} (spelled : ∀ entry ∈ tables, entry.2.IsSpelled) :
    read? (ofTables layout tables).toList = some (.ofTables tables) := by
  rw [ofTables, String.toList_ofList]
  have whole := writes_object blank 0 fun entry among =>
    writes_member blank 1 (spelled entry among)
  exact whole.read?

end

end Json

end ProfileTrace
