import ProfileTrace.Document.Json

/-! Texts in JSON read back. A text is cut into tokens one character after the other, and the
tokens are put together by what is open around each of them. Only what the grammar of JSON allows
is accepted, and a number is kept as it is spelled. -/

namespace ProfileTrace.Json

inductive Value where
  | null
  | bool (value : Bool)
  | number (literal : List Char)
  | text (value : String)
  | list (items : List Value)
  | object (members : List (String × Value))

inductive Token where
  | mark (c : Char)
  | text (value : String)
  /-- A value that is spelled as one word. -/
  | atom (value : Value)

def isBlank (c : Char) : Bool := [' ', '\n', '\r', '\t'].contains c

def isMark (c : Char) : Bool := ['[', ']', '\x7b', '\x7d', ',', ':'].contains c

/-! ### Words -/

/-- Digits of a whole number: no zero stands before others. -/
def isWhole : List Char → Bool
  | [] => false
  | first :: others => first.isDigit && others.all Char.isDigit && (first != '0' || others.isEmpty)

def isDigits (cs : List Char) : Bool := !cs.isEmpty && cs.all Char.isDigit

def isFraction : List Char → Bool
  | [] => true
  | point :: digits => point == '.' && isDigits digits

def isExponent : List Char → Bool
  | [] => true
  | _ :: '+' :: digits => isDigits digits
  | _ :: '-' :: digits => isDigits digits
  | _ :: digits => isDigits digits

def isNumber (word : List Char) : Bool :=
  let unsigned := if word.head? = some '-' then word.tail else word
  let isPlain (c : Char) : Bool := c != 'e' && c != 'E'
  let decimal := unsigned.takeWhile isPlain
  isWhole (decimal.takeWhile (· != '.')) && isFraction (decimal.dropWhile (· != '.')) &&
    isExponent (unsigned.dropWhile isPlain)

def atom? (word : List Char) : Option Value :=
  if word = "null".toList then some .null
  else if word = "true".toList then some (.bool true)
  else if word = "false".toList then some (.bool false)
  else if isNumber word then some (.number word)
  else none

/-! ### Characters -/

/-- What the last characters are the beginning of. The characters of a word or a text that are
read already come in reverse. -/
inductive Mode where
  | between
  | word (taken : List Char)
  | text (taken : List Char)
  | escaped (taken : List Char)
  /-- In a code of which there are `more` digits after the next one, and perhaps another code
  before it. -/
  | code (taken : List Char) (first : Option Nat) (more value : Nat)
  /-- After a code that is the first half of a character. -/
  | half (taken : List Char) (first : Nat)
  | halfEscaped (taken : List Char) (first : Nat)

def unescape? : Char → Option Char
  | '"' => some '"'
  | '\\' => some '\\'
  | '/' => some '/'
  | 'b' => some '\x08'
  | 'f' => some '\x0C'
  | 'n' => some '\n'
  | 'r' => some '\r'
  | 't' => some '\t'
  | _ => none

def hexValue? (c : Char) : Option Nat :=
  if c.isDigit then some (c.toNat - '0'.toNat)
  else if 'a' ≤ c ∧ c ≤ 'f' then some (c.toNat - 'a'.toNat + 10)
  else if 'A' ≤ c ∧ c ≤ 'F' then some (c.toNat - 'A'.toNat + 10)
  else none

/-- After the last digit of a code. Codes from 0xD800 on are halves of characters beyond 16 bits,
below 0xDC00 first halves and below 0xE000 second ones. -/
def afterCode (taken : List Char) (first : Option Nat) (value : Nat) : Option Mode :=
  let isSecond := 0xDC00 ≤ value ∧ value < 0xE000
  match first with
  | none =>
      if 0xD800 ≤ value ∧ value < 0xDC00 then some (.half taken value)
      else if isSecond then none
      else some (.text (Char.ofNat value :: taken))
  | some first =>
      if isSecond then
        some (.text (Char.ofNat (0x10000 + 0x400 * (first - 0xD800) + (value - 0xDC00)) :: taken))
      else none

def afterBetween (c : Char) : Mode × List Token :=
  if isBlank c then (.between, [])
  else if isMark c then (.between, [.mark c])
  else if c = '"' then (.text [], [])
  else (.word [c], [])

/-- One more character, with the tokens that it completes. -/
def Mode.step : Mode → Char → Option (Mode × List Token)
  | .between, c => some (afterBetween c)
  | .word taken, c =>
      if isBlank c || isMark c then
        (atom? taken.reverse).map fun value => (.between, .atom value :: (afterBetween c).2)
      else some (.word (c :: taken), [])
  | .text taken, c =>
      if c = '"' then some (.between, [.text (String.ofList taken.reverse)])
      else if c = '\\' then some (.escaped taken, [])
      else if c.toNat < 0x20 then none
      else some (.text (c :: taken), [])
  | .escaped taken, c =>
      if c = 'u' then some (.code taken none 3 0, [])
      else (unescape? c).map fun c => (.text (c :: taken), [])
  | .code taken first more value, c => do
      let value := 16 * value + (← hexValue? c)
      match more with
      | 0 => (afterCode taken first value).map (·, [])
      | more + 1 => some (.code taken first more value, [])
  | .half taken first, c => if c = '\\' then some (.halfEscaped taken first, []) else none
  | .halfEscaped taken first, c =>
      if c = 'u' then some (.code taken (some first) 3 0, []) else none

def Mode.tokens? : Mode → List Char → Option (List Token)
  | .between, [] => some []
  | .word taken, [] => (atom? taken.reverse).map fun value => [.atom value]
  | _, [] => none
  | mode, c :: cs => do
      let (next, tokens) ← mode.step c
      (next.tokens? cs).map (tokens ++ ·)

theorem Mode.tokens?_cons {mode next : Mode} {c : Char} {tokens : List Token}
    (step : mode.step c = some (next, tokens)) (cs : List Char) :
    mode.tokens? (c :: cs) = (next.tokens? cs).map (tokens ++ ·) := by
  rw [tokens?, step]
  rfl

theorem Mode.tokens?_cons_nil {mode next : Mode} {c : Char} (step : mode.step c = some (next, []))
    (cs : List Char) : mode.tokens? (c :: cs) = next.tokens? cs := by
  rw [tokens?_cons step]
  exact Option.map_id_apply

/-! ### Tokens -/

/-- What a value is a part of: a list after other items, or an object after other members. -/
inductive Opening where
  | item (items : List Value)
  | member (members : List (String × Value)) (name : String)

inductive State where
  | beforeValue (outer : List Opening)
  /-- The first item of a list, or its end. -/
  | firstItem (outer : List Opening)
  /-- A comma, or the end of a list. -/
  | afterItem (items : List Value) (outer : List Opening)
  /-- The first member of an object, or its end. -/
  | firstMember (outer : List Opening)
  | beforeName (members : List (String × Value)) (outer : List Opening)
  | beforeColon (members : List (String × Value)) (name : String) (outer : List Opening)
  /-- A comma, or the end of an object. -/
  | afterMember (members : List (String × Value)) (outer : List Opening)
  | done (value : Value)

namespace State

def complete (value : Value) : List Opening → State
  | [] => .done value
  | .item items :: outer => .afterItem (items ++ [value]) outer
  | .member members name :: outer => .afterMember (members ++ [(name, value)]) outer

def open? (outer : List Opening) : Token → Option State
  | .atom value => some (complete value outer)
  | .text value => some (complete (.text value) outer)
  | .mark '[' => some (.firstItem outer)
  | .mark '\x7b' => some (.firstMember outer)
  | .mark _ => none

def step : State → Token → Option State
  | .beforeValue outer, token => open? outer token
  | .firstItem outer, .mark ']' => some (complete (.list []) outer)
  | .firstItem outer, token => open? (.item [] :: outer) token
  | .afterItem items outer, .mark ',' => some (.beforeValue (.item items :: outer))
  | .afterItem items outer, .mark ']' => some (complete (.list items) outer)
  | .firstMember outer, .mark '\x7d' => some (complete (.object []) outer)
  | .firstMember outer, .text name => some (.beforeColon [] name outer)
  | .beforeName members outer, .text name => some (.beforeColon members name outer)
  | .beforeColon members name outer, .mark ':' =>
      some (.beforeValue (.member members name :: outer))
  | .afterMember members outer, .mark ',' => some (.beforeName members outer)
  | .afterMember members outer, .mark '\x7d' => some (complete (.object members) outer)
  | _, _ => none

def run (state : State) (tokens : List Token) : Option State := tokens.foldlM step state

@[simp] theorem run_nil (state : State) : state.run [] = some state := rfl

theorem run_cons (state : State) (token : Token) (tokens : List Token) :
    state.run (token :: tokens) = (state.step token).bind (run · tokens) :=
  List.foldlM_cons

theorem run_append {state next : State} {first : List Token} (reached : state.run first = some next)
    (second : List Token) : state.run (first ++ second) = next.run second := by
  unfold run at *
  rw [List.foldlM_append, reached]
  rfl

end State

def read? (text : List Char) : Option Value := do
  let tokens ← Mode.between.tokens? text
  match ← (State.beforeValue []).run tokens with
  | .done value => some value
  | _ => none

end ProfileTrace.Json
