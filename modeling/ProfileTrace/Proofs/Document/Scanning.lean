import ProfileTrace.Proofs.Document.Numbers

/-! What a text in JSON is cut into. A text between quotes is the one that was escaped, a number
and each other word is one token up to what ends it, and blanks between the tokens are nothing. -/

namespace ProfileTrace.Json

/-! ### Characters -/

/-- Wherever they stand between tokens, the characters are these tokens. -/
def Scans (chars : List Char) (tokens : List Token) : Prop :=
  ∀ rest, Mode.between.tokens? (chars ++ rest) = (Mode.between.tokens? rest).map (tokens ++ ·)

def Stops (rest : List Char) : Prop := ∀ c ∈ rest.head?, (isBlank c || isMark c) = true

/-- The characters are these tokens as long as what follows does not go on with a word. -/
def Ends (chars : List Char) (tokens : List Token) : Prop :=
  ∀ rest, Stops rest →
    Mode.between.tokens? (chars ++ rest) = (Mode.between.tokens? rest).map (tokens ++ ·)

section
variable {first second chars : List Char} {tokens more : List Token}

theorem Scans.ends (scans : Scans chars tokens) : Ends chars tokens := fun rest _ => scans rest

theorem Scans.append_ends (scans : Scans first tokens) (ends : Ends second more) :
    Ends (first ++ second) (tokens ++ more) := by
  intro rest stops
  rw [List.append_assoc, scans, ends rest stops, Option.map_map]
  congr 1
  funext later
  exact (List.append_assoc tokens more later).symm

theorem Ends.append (ends : Ends first tokens) (scans : Scans second more) (stops : Stops second)
    (nonempty : second ≠ []) : Scans (first ++ second) (tokens ++ more) := by
  intro rest
  have still : Stops (second ++ rest) := by
    obtain ⟨c, others, rfl⟩ := List.exists_cons_of_ne_nil nonempty
    exact stops
  rw [List.append_assoc, ends _ still, scans, Option.map_map]
  congr 1
  funext later
  exact (List.append_assoc tokens more later).symm

theorem Scans.append (scans : Scans first tokens) (further : Scans second more) :
    Scans (first ++ second) (tokens ++ more) := by
  intro rest
  rw [List.append_assoc, scans, further, Option.map_map]
  congr 1
  funext later
  exact (List.append_assoc tokens more later).symm

end

theorem scans_blanks {blanks : List Char} (blank : ∀ c ∈ blanks, isBlank c = true) :
    Scans blanks [] := by
  intro rest
  induction blanks with
  | nil => exact Option.map_id_apply.symm
  | cons c blanks ih =>
    have step : Mode.between.step c = some (.between, []) := by
      simp [Mode.step, afterBetween, blank c List.mem_cons_self]
    rw [List.cons_append, Mode.tokens?_cons_nil step]
    exact ih fun other among => blank other (List.mem_cons_of_mem _ among)

theorem scans_mark {c : Char} (blank : isBlank c = false) (mark : isMark c = true) :
    Scans [c] [.mark c] := by
  intro rest
  have step : Mode.between.step c = some (.between, [.mark c]) := by
    simp [Mode.step, afterBetween, blank, mark]
  exact Mode.tokens?_cons step rest

/-! ### Texts -/

theorem Mode.step_text_escape (taken : List Char) :
    (Mode.text taken).step '\\' = some (.escaped taken, []) := rfl

theorem hexValue?_hexDigit (n : Nat) : hexValue? (hexDigit n) = some (n % 16) := by
  have each : ∀ digit < 16, hexValue? (Nat.digitChar digit) = some digit := by decide
  exact each (n % 16) (Nat.mod_lt n (by decide))

theorem tokens?_digit {taken : List Char} {more value : Nat} (n : Nat) (rest : List Char) :
    (Mode.code taken none (more + 1) value).tokens? (hexDigit n :: rest) =
      (Mode.code taken none more (16 * value + n % 16)).tokens? rest := by
  apply Mode.tokens?_cons_nil
  rw [Mode.step, hexValue?_hexDigit]
  rfl

theorem tokens?_code (taken : List Char) {c : Char} (control : c.toNat < 0x20) (rest : List Char) :
    (Mode.text taken).tokens?
        (['\\', 'u', '0', '0', hexDigit (c.toNat / 16), hexDigit c.toNat] ++ rest) =
      (Mode.text (c :: taken)).tokens? rest := by
  have whole : 16 * (c.toNat / 16 % 16) + c.toNat % 16 = c.toNat := by omega
  have zero : '0' = hexDigit 0 := rfl
  have last : (Mode.code taken none 0 (c.toNat / 16 % 16)).step (hexDigit c.toNat) =
      some (.text (c :: taken), []) := by
    rw [Mode.step, hexValue?_hexDigit]
    have low : ¬(0xD800 ≤ c.toNat ∧ c.toNat < 0xDC00) ∧ ¬(0xDC00 ≤ c.toNat ∧ c.toNat < 0xE000) := by
      omega
    simp [whole, afterCode, low]
  have letter : (Mode.escaped taken).step 'u' = some (.code taken none 3 0, []) := rfl
  simp only [List.cons_append, List.nil_append]
  rw [Mode.tokens?_cons_nil (Mode.step_text_escape taken), Mode.tokens?_cons_nil letter, zero,
    tokens?_digit, tokens?_digit, tokens?_digit]
  simp only [Nat.zero_mod, Nat.mul_zero, Nat.zero_add]
  exact Mode.tokens?_cons_nil last rest

theorem tokens?_escape (taken : List Char) (c : Char) (rest : List Char) :
    (Mode.text taken).tokens? (escape c ++ rest) = (Mode.text (c :: taken)).tokens? rest := by
  unfold escape
  split
  case h_8 =>
    split
    next control => exact tokens?_code taken control rest
    next plain =>
      apply Mode.tokens?_cons_nil
      simp_all [Mode.step]
  all_goals
    exact (Mode.tokens?_cons_nil (Mode.step_text_escape taken) _).trans
      (Mode.tokens?_cons_nil rfl _)

theorem tokens?_escaped (cs taken rest : List Char) :
    (Mode.text taken).tokens? (cs.flatMap escape ++ '"' :: rest) =
      (Mode.between.tokens? rest).map (.text (String.ofList (taken.reverse ++ cs)) :: ·) := by
  induction cs generalizing taken with
  | nil =>
    have closed : (Mode.text taken).step '"' =
        some (.between, [.text (String.ofList taken.reverse)]) := rfl
    rw [List.append_nil]
    exact Mode.tokens?_cons closed rest
  | cons c cs ih =>
    rw [List.flatMap_cons, List.append_assoc, tokens?_escape, ih, List.reverse_cons,
      List.append_assoc, List.singleton_append]

theorem scans_quoted (text : String) : Scans (quoted text) [.text text] := by
  intro rest
  have opened : Mode.between.step '"' = some (.text [], []) := rfl
  rw [quoted, List.cons_append, List.cons_append, List.append_assoc, List.singleton_append,
    Mode.tokens?_cons_nil opened, tokens?_escaped, List.reverse_nil, List.nil_append,
    String.ofList_toList]
  rfl

/-! ### Words -/

def isPart (c : Char) : Bool := !isBlank c && !isMark c && c != '"'

theorem isPart_of_isDigit {c : Char} (digit : c.isDigit = true) : isPart c = true := by
  have other (d : Char) (none : d.isDigit = false) : c ≠ d := ne_of_isDigit digit none
  simp [isPart, isBlank, isMark, other]

theorem isPart_of_isDigits {digits : List Char} (isDigits : isDigits digits = true) :
    ∀ c ∈ digits, isPart c = true := by
  simp only [Json.isDigits, Bool.and_eq_true, List.all_eq_true] at isDigits
  exact fun c among => isPart_of_isDigit (isDigits.2 c among)

theorem isPart_of_isExponent {mark : Char} {signed : List Char}
    (isExponent : isExponent (mark :: signed) = true) : ∀ c ∈ signed, isPart c = true := by
  unfold Json.isExponent at isExponent
  split at isExponent
  case h_1 => contradiction
  case h_2 _ _ digits same =>
    obtain ⟨rfl, rfl⟩ := List.cons.inj same
    intro c among
    rcases List.mem_cons.mp among with rfl | digit
    · rfl
    · exact isPart_of_isDigits isExponent c digit
  case h_3 _ _ digits same =>
    obtain ⟨rfl, rfl⟩ := List.cons.inj same
    intro c among
    rcases List.mem_cons.mp among with rfl | digit
    · rfl
    · exact isPart_of_isDigits isExponent c digit
  case h_4 _ _ digits _ _ same =>
    obtain ⟨rfl, rfl⟩ := List.cons.inj same
    exact isPart_of_isDigits isExponent

theorem isPart_of_isFraction {fraction : List Char} (isFraction : isFraction fraction = true) :
    ∀ c ∈ fraction, isPart c = true := by
  rcases isFraction_cases isFraction with rfl | ⟨digits, rfl, digit⟩
  · simp
  · intro c among
    rcases List.mem_cons.mp among with rfl | after
    · rfl
    · exact isPart_of_isDigit (digit c after)

theorem isPart_of_isNumber {word : List Char} (isNumber : isNumber word = true) :
    ∀ c ∈ word, isPart c = true := by
  have signed : ∀ c ∈ word, c = '-' ∨ c ∈ if word.head? = some '-' then word.tail else word := by
    intro c among
    split
    next sign =>
      obtain ⟨others, rfl⟩ := List.head?_eq_some_iff.mp sign
      exact List.mem_cons.mp among
    next => exact .inr among
  simp only [Json.isNumber, Bool.and_eq_true] at isNumber
  revert signed isNumber
  generalize (if word.head? = some '-' then word.tail else word) = unsigned
  rintro signed ⟨⟨whole, fraction⟩, exponent⟩ c among
  rcases signed c among with rfl | inside
  · rfl
  rw [← List.takeWhile_append_dropWhile (p := fun c => c != 'e' && c != 'E') (l := unsigned)]
    at inside
  rcases List.mem_append.mp inside with decimal | behind
  · rw [← List.takeWhile_append_dropWhile (p := (· != '.')) (l := unsigned.takeWhile _)] at decimal
    rcases List.mem_append.mp decimal with integral | fractional
    · exact isPart_of_isDigit (digits_of_isWhole whole c integral)
    · exact isPart_of_isFraction fraction c fractional
  · have mark := List.head?_dropWhile_not (fun c => c != 'e' && c != 'E') unsigned
    revert behind exponent mark
    cases unsigned.dropWhile (fun c => c != 'e' && c != 'E') with
    | nil => simp
    | cons mark exponential =>
      intro exponent behind marked
      rcases List.mem_cons.mp behind with rfl | later
      · have marked : c = 'e' ∨ c = 'E' := by
          simpa [imp_iff_not_or] using marked
        rcases marked with rfl | rfl <;> rfl
      · exact isPart_of_isExponent exponent c later

theorem tokens?_word {taken word rest : List Char} {value : Value}
    (part : ∀ c ∈ word, isPart c = true) (atom : atom? (taken.reverse ++ word) = some value)
    (stops : Stops rest) :
    (Mode.word taken).tokens? (word ++ rest) =
      (Mode.between.tokens? rest).map ([.atom value] ++ ·) := by
  induction word generalizing taken with
  | nil =>
    rw [List.append_nil] at atom
    cases rest with
    | nil => exact congrArg (Option.map fun value => [Token.atom value]) atom
    | cons c rest =>
      -- the character after the word ends it, and may be a token of its own
      have stop := stops c rfl
      have next : afterBetween c = (.between, (afterBetween c).2) := by
        unfold afterBetween
        split
        next => rfl
        next blank =>
          simp only [blank, Bool.false_or] at stop
          rw [if_pos stop]
      have word : (Mode.word taken).step c =
          some (.between, .atom value :: (afterBetween c).2) := by
        rw [Mode.step, if_pos stop, atom]
        rfl
      have between : Mode.between.step c = some (.between, (afterBetween c).2) := congrArg some next
      rw [List.nil_append, Mode.tokens?_cons word, Mode.tokens?_cons between, Option.map_map]
      rfl
  | cons c word ih =>
    have own := part c List.mem_cons_self
    have step : (Mode.word taken).step c = some (.word (c :: taken), []) := by
      simp_all [Mode.step, isPart]
    rw [List.cons_append, Mode.tokens?_cons_nil step]
    apply ih (fun other among => part other (List.mem_cons_of_mem _ among))
    rwa [List.reverse_cons, List.append_assoc]

theorem ends_word {word : List Char} {value : Value} (nonempty : word ≠ [])
    (part : ∀ c ∈ word, isPart c = true) (atom : atom? word = some value) :
    Ends word [.atom value] := by
  intro rest stops
  obtain ⟨c, others, rfl⟩ := List.exists_cons_of_ne_nil nonempty
  have own := part c List.mem_cons_self
  have step : Mode.between.step c = some (.word [c], []) := by
    simp_all [Mode.step, afterBetween, isPart]
  rw [List.cons_append, Mode.tokens?_cons_nil step]
  exact tokens?_word (fun other among => part other (List.mem_cons_of_mem _ among)) atom stops

theorem atom?_number {word : List Char} (isNumber : isNumber word = true) :
    atom? word = some (.number word) := by
  have other : ∀ spelled : List Char, Json.isNumber spelled = false → word ≠ spelled := by
    rintro spelled none rfl
    rw [none] at isNumber
    cases isNumber
  rw [atom?, if_neg (other _ (by decide)), if_neg (other _ (by decide)),
    if_neg (other _ (by decide)), if_pos isNumber]

theorem ends_null : Ends "null".toList [.atom .null] := by
  have atom : atom? "null".toList = some .null := by rw [atom?, if_pos rfl]
  have part : "null".toList.all isPart = true := by decide
  exact ends_word (by decide) (List.all_eq_true.mp part) atom

theorem ends_number {word : List Char} (isNumber : isNumber word = true) :
    Ends word [.atom (.number word)] := by
  refine ends_word ?_ (isPart_of_isNumber isNumber) (atom?_number isNumber)
  rintro rfl
  cases isNumber

end ProfileTrace.Json
