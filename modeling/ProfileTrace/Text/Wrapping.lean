import ProfileTrace.Text.Blank

/-! Wrapped text. Module and symbol columns come in brackets, sometimes in several
layers, and module paths carry their directories; both are taken off here. -/

namespace ProfileTrace.Text

def isBracketPair (opening closing : Char) : Bool :=
  (opening == '(' && closing == ')') || (opening == '[' && closing == ']')

def isWrapped : List Char → Bool
  | first :: second :: rest => isBracketPair first ((second :: rest).getLast (by simp))
  | _ => false

def unwrapChars (chars : List Char) : List Char :=
  match chars with
  | first :: second :: rest =>
      if isBracketPair first ((second :: rest).getLast (by simp)) then
        unwrapChars ((second :: rest).dropLast)
      else first :: second :: rest
  | short => short
termination_by chars.length
decreasing_by simp only [List.length_dropLast, List.length_cons]; omega

def unwrap (text : String) : String :=
  String.ofList (unwrapChars text.toList)

@[simp] theorem toList_unwrap (text : String) :
    (unwrap text).toList = unwrapChars text.toList := by
  simp [unwrap]

def baseNameChars (path : List Char) : List Char :=
  let name := (path.reverse.takeWhile (· != '/')).reverse
  if name.isEmpty then path else name

/-- The file name of a path; a path that ends in a slash is kept whole. -/
def baseName (path : String) : String :=
  String.ofList (baseNameChars path.toList)

@[simp] theorem toList_baseName (path : String) :
    (baseName path).toList = baseNameChars path.toList := by
  simp [baseName]

def pieces (separator : Char) : List Char → List (List Char)
  | [] => [[]]
  | c :: rest =>
      if c = separator then [] :: pieces separator rest
      else
        match pieces separator rest with
        | [] => [[c]]
        | piece :: others => (c :: piece) :: others

theorem pieces_eq_splitOn (separator : Char) (chars : List Char) :
    pieces separator chars = chars.splitOn separator := by
  induction chars with
  | nil => rw [pieces, List.splitOn_nil]
  | cons c rest ih =>
    rw [pieces, ih, List.splitOn_cons_eq_if_modifyHead]
    simp only [beq_iff_eq]
    cases found : rest.splitOn separator with
    | nil => exact absurd found (List.splitOn_ne_nil separator rest)
    | cons piece others => rfl

def hasSuffix (text ending : String) : Bool := ending.toList.isSuffixOf text.toList

def hasPrefix (text beginning : String) : Bool := beginning.toList.isPrefixOf text.toList

end ProfileTrace.Text
