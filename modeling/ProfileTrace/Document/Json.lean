/-! Documents of tables in JSON. A document is an object whose members are single values
or lists of rows, and a row is an object of single values. A layout says what stands
between the tokens; both layouts write the same tokens. -/

namespace ProfileTrace

inductive Scalar where
  | null
  | number (literal : List Char)
  | text (value : String)
  deriving DecidableEq, Repr

abbrev Row := List (String × Scalar)

inductive Member where
  | scalar (value : Scalar)
  | rows (rows : List Row)
  deriving DecidableEq, Repr

abbrev JsonTables := List (String × Member)

namespace Json

structure Layout where
  lineBreak : Nat → List Char
  colon : List Char

def compact : Layout where
  lineBreak _ := []
  colon := [':']

/-- One item a line, indented by two spaces for each level. -/
def pretty : Layout where
  lineBreak depth := '\n' :: List.replicate (2 * depth) ' '
  colon := [':', ' ']

def hexDigit (n : Nat) : Char := Nat.digitChar (n % 16)

/-- A character as a string holds it: quotes, backslashes and controls are escaped. -/
def escape (c : Char) : List Char :=
  match c with
  | '"' => ['\\', '"']
  | '\\' => ['\\', '\\']
  | '\x08' => ['\\', 'b']
  | '\x0C' => ['\\', 'f']
  | '\n' => ['\\', 'n']
  | '\r' => ['\\', 'r']
  | '\t' => ['\\', 't']
  | c =>
      if c.toNat < 0x20 then
        ['\\', 'u', '0', '0', hexDigit (c.toNat / 16), hexDigit c.toNat]
      else [c]

def quoted (text : String) : List Char := '"' :: text.toList.flatMap escape ++ ['"']

def ofScalar : Scalar → List Char
  | .null => "null".toList
  | .number literal => literal
  | .text value => quoted value

def bracketed (layout : Layout) (depth : Nat) (opening closing : Char)
    (items : List (List Char)) : List Char :=
  if items.isEmpty then [opening, closing]
  else
    opening :: [','].intercalate (items.map fun item => layout.lineBreak (depth + 1) ++ item) ++
      layout.lineBreak depth ++ [closing]

def member (layout : Layout) (name : String) (value : List Char) : List Char :=
  quoted name ++ layout.colon ++ value

def ofRow (layout : Layout) (depth : Nat) (row : Row) : List Char :=
  bracketed layout depth '\x7b' '\x7d'
    (row.map fun (name, value) => member layout name (ofScalar value))

def ofMember (layout : Layout) (depth : Nat) : Member → List Char
  | .scalar value => ofScalar value
  | .rows rows => bracketed layout depth '[' ']' (rows.map (ofRow layout (depth + 1)))

def ofTables (layout : Layout) (tables : JsonTables) : String :=
  String.ofList <| bracketed layout 0 '\x7b' '\x7d'
    (tables.map fun (name, value) => member layout name (ofMember layout 1 value))

end Json

end ProfileTrace
