/-! Code page 437, in which the names of an archive are written unless they are marked as
UTF-8. Its lower half is ASCII. -/

namespace ProfileTrace.Text

def codePageUpperHalf : String :=
  "ÇüéâäàåçêëèïîìÄÅÉæÆôöòûùÿÖÜ¢£¥₧ƒ" ++ "áíóúñÑªº¿⌐¬½¼¡«»░▒▓│┤╡╢╖╕╣║╗╝╜╛┐" ++
  "└┴┬├─┼╞╟╚╔╩╦╠═╬╧╨╤╥╙╘╒╓╫╪┘┌█▄▌▐▀" ++ "αßΓπΣσµτΦΘΩδ∞φε∩≡±≥≤⌠⌡÷≈°∙·√ⁿ²■\u00A0"

def ofCodePage (bytes : List UInt8) : String :=
  let upperHalf := codePageUpperHalf.toList
  String.ofList (bytes.map fun b =>
    if b < 0x80 then Char.ofNat b.toNat else upperHalf.getD (b.toNat - 0x80) '\uFFFD')

end ProfileTrace.Text
