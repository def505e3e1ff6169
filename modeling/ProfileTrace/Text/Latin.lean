/-! Bytes as text. Every scanned byte stands for the character of the same number,
so scanned text holds characters up to U+00FF and each of them names one byte. -/

namespace ProfileTrace.Text

def charOfByte (b : UInt8) : Char := Char.ofNat b.toNat

def ofBytes (bytes : List UInt8) : String :=
  String.ofList (bytes.map charOfByte)

/-- One byte per character; a character past U+00FF keeps its low eight bits. -/
def toBytes (text : String) : List UInt8 :=
  text.toList.map fun c => UInt8.ofNat c.toNat

@[simp] theorem toList_ofBytes (bytes : List UInt8) :
    (ofBytes bytes).toList = bytes.map charOfByte := by
  simp [ofBytes]

theorem toNat_charOfByte (b : UInt8) : (charOfByte b).toNat = b.toNat := by
  have small : b.toNat < 256 := b.toNat_lt
  have valid : b.toNat.isValidChar := Or.inl (by omega)
  unfold charOfByte Char.ofNat
  rw [dif_pos valid]
  rfl

theorem charOfByte_injective {a b : UInt8} (same : charOfByte a = charOfByte b) : a = b := by
  have numbers := congrArg Char.toNat same
  rw [toNat_charOfByte, toNat_charOfByte] at numbers
  exact UInt8.toNat_inj.mp numbers

theorem toBytes_ofBytes (bytes : List UInt8) : toBytes (ofBytes bytes) = bytes := by
  simp only [toBytes, toList_ofBytes, List.map_map]
  conv => rhs; rw [← List.map_id bytes]
  apply List.map_congr_left
  intro b _
  simp [toNat_charOfByte]

end ProfileTrace.Text
