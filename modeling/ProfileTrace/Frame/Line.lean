import ProfileTrace.Cursor.Scan
import ProfileTrace.Frame
import ProfileTrace.Text.Latin
import ProfileTrace.Text.Wrapping

/-! Lines of a record's stack: an address, a symbol, and the module in brackets after
the last round bracket that opens on the line. When the module is the symbol map of a
running program, the module proper is the first token in square brackets. -/

namespace ProfileTrace

def cutMarker : UInt8 := 0x01

inductive FrameLine where
  | entry (frame : Frame)
  | cut
  | blank
  deriving DecidableEq, Repr

namespace FrameLine
open Text

def isBracketedToken (token : List Char) : Bool :=
  (trimChars token).head? == some '[' && isWrapped (trimChars token)

/-- Module and symbol of a frame from a symbol map: the first bracketed token and what
follows it, where the path of the map stands in for a missing symbol. Without such a
token the columns stay as they are. -/
def splitMapSymbol (symbol path : String) : String × String :=
  let tokens := pieces ' ' symbol.toList
  match tokens.dropWhile fun token => !isBracketedToken token with
  | token :: following =>
      let name := trimChars ([' '].intercalate following)
      (String.ofList (unwrapChars (trimChars token)),
        if name.isEmpty then path else String.ofList name)
  | [] => (path, unwrap (trim symbol))

def codeFrame (address symbol column : String) : Frame :=
  let path := unwrap (trim column)
  let (module, name) :=
    if hasSuffix path ".map" then splitMapSymbol symbol path else (path, unwrap (trim symbol))
  .code address (baseName module) name

variable {σ : Type} [Cursor σ]
open Cursor

def isFieldEnd (b : UInt8) : Bool := isSpaceByte b || b == 0x0A

def readCode (c : σ) : Frame × σ :=
  let (address, c) := readUntil isFieldEnd c
  let (symbol, c) := readUntilLastOnLine 0x28 (skipSpaces c)
  let (column, c) := readUntil (· == 0x0A) c
  (codeFrame (ofBytes address) (ofBytes symbol) (ofBytes column), c)

def read (c : σ) : FrameLine × σ :=
  let c := skipSpaces c
  if current c == cutMarker && !atEnd c then (.cut, skipTo 0x0A c)
  else if current c == 0x0A || current c == 0x0D then (.blank, skipTo 0x0A c)
  else if atEnd c then (.blank, c)
  else
    let (frame, c) := readCode c
    (.entry frame, c)

theorem reaches_readCode (c : σ) : Reaches c (readCode c).2 :=
  (reaches_readUntil isFieldEnd c).trans <| (reaches_skipWhile _ _).trans <|
    (reaches_readUntilLastOnLine 0x28 _).trans (reaches_readUntil _ _)

theorem reaches_read (c : σ) : Reaches c (read c).2 := by
  have start : Reaches c (skipSpaces c) := reaches_skipWhile _ c
  unfold read
  simp only
  split
  · exact start.trans (reaches_skipWhile _ _)
  · split
    · exact start.trans (reaches_skipWhile _ _)
    · split
      · exact start
      · exact start.trans (reaches_readCode _)

end FrameLine

end ProfileTrace
