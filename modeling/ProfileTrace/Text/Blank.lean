/-! Blank characters and blank bytes. Scanned fields are trimmed by Unicode's
`White_Space` property, while the scanner itself steps over the smaller set of
ASCII blanks; the two sets differ at the vertical tab, U+0085 and U+00A0. -/

namespace ProfileTrace.Text

/-- Unicode's `White_Space` property. -/
def isBlank (c : Char) : Bool :=
  let n := c.toNat
  (9 ≤ n && n ≤ 13) || n == 0x20 || n == 0x85 || n == 0xA0 || n == 0x1680 ||
    (0x2000 ≤ n && n ≤ 0x200A) || n == 0x2028 || n == 0x2029 || n == 0x202F ||
    n == 0x205F || n == 0x3000

def trimChars (chars : List Char) : List Char :=
  ((chars.dropWhile isBlank).reverse.dropWhile isBlank).reverse

def trim (text : String) : String :=
  String.ofList (trimChars text.toList)

@[simp] theorem toList_trim (text : String) : (trim text).toList = trimChars text.toList := by
  simp [trim]

def isSpaceByte (b : UInt8) : Bool := b == 0x20 || b == 0x09

/-- The ASCII blanks: space, tab, line feed, form feed and carriage return. -/
def isWhitespaceByte (b : UInt8) : Bool :=
  b == 0x20 || b == 0x09 || b == 0x0A || b == 0x0C || b == 0x0D

def isDigitByte (b : UInt8) : Bool := 0x30 ≤ b && b ≤ 0x39

def isGraphicByte (b : UInt8) : Bool := 0x21 ≤ b && b ≤ 0x7E

def digitValue? (radix : Nat) (b : UInt8) : Option Nat :=
  let n := b.toNat
  let value :=
    if 0x30 ≤ n && n ≤ 0x39 then some (n - 0x30)
    else if 0x61 ≤ n && n ≤ 0x7A then some (n - 0x61 + 10)
    else if 0x41 ≤ n && n ≤ 0x5A then some (n - 0x41 + 10)
    else none
  value.filter (· < radix)

end ProfileTrace.Text
