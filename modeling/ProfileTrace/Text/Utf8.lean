/-! Bytes as UTF-8. Where they are not, each part that could not be continued gives one
replacement character, so that every sequence of bytes is a text. -/

namespace ProfileTrace.Text

/-- A character whose first bytes have been read: its number so far, the range that the
next byte must be in, and how many bytes follow that one. -/
structure UnfinishedChar where
  number : Nat
  least : UInt8 := 0x80
  most : UInt8 := 0xBF
  following : Nat

/-- What a first byte of several begins. The narrower ranges of the second byte keep out
numbers that fewer bytes write, surrogates, and numbers past U+10FFFF. -/
def UnfinishedChar.ofFirst? (b : UInt8) : Option UnfinishedChar :=
  let n := b.toNat
  if 0xC2 ≤ n && n ≤ 0xDF then some { number := n - 0xC0, following := 0 }
  else if n == 0xE0 then some { number := 0, least := 0xA0, following := 1 }
  else if n == 0xED then some { number := 0xD, most := 0x9F, following := 1 }
  else if 0xE1 ≤ n && n ≤ 0xEF then some { number := n - 0xE0, following := 1 }
  else if n == 0xF0 then some { number := 0, least := 0x90, following := 2 }
  else if 0xF1 ≤ n && n ≤ 0xF3 then some { number := n - 0xF0, following := 2 }
  else if n == 0xF4 then some { number := 4, most := 0x8F, following := 2 }
  else none

def replacement : Char := '\uFFFD'

def beginChar (b : UInt8) : List Char × Option UnfinishedChar :=
  if b < 0x80 then ([Char.ofNat b.toNat], none)
  else
    match UnfinishedChar.ofFirst? b with
    | some begun => ([], some begun)
    | none => ([replacement], none)

def UnfinishedChar.goOn (unfinished : UnfinishedChar) (b : UInt8) :
    List Char × Option UnfinishedChar :=
  if unfinished.least ≤ b && b ≤ unfinished.most then
    let number := unfinished.number * 64 + (b.toNat - 0x80)
    match unfinished.following with
    | 0 => ([Char.ofNat number], none)
    | following + 1 => ([], some { number, following })
  else
    let (chars, begun) := beginChar b
    (replacement :: chars, begun)

def charsOfUtf8 : Option UnfinishedChar → List UInt8 → List Char
  | none, [] => []
  | some _, [] => [replacement]
  | none, b :: rest => (beginChar b).1 ++ charsOfUtf8 (beginChar b).2 rest
  | some unfinished, b :: rest =>
      (unfinished.goOn b).1 ++ charsOfUtf8 (unfinished.goOn b).2 rest

/-- The text of bytes in UTF-8, with replacements where they are not. -/
def ofUtf8 (bytes : List UInt8) : String := String.ofList (charsOfUtf8 none bytes)

end ProfileTrace.Text
