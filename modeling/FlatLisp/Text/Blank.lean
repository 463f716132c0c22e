/-!
Blank characters separate the words of a source text. The class is the
White_Space property of Unicode, so it is wider than the ASCII class of
`Char.isWhitespace`: the no-break space, the ideographic space and the
vertical tab all count.
-/

namespace FlatLisp.Text

/-- Characters with the White_Space property. -/
def isBlank (c : Char) : Bool :=
  let n := c.toNat
  (0x09 ≤ n && n ≤ 0x0d) || n == 0x20 || n == 0x85 || n == 0xa0 || n == 0x1680 ||
    (0x2000 ≤ n && n ≤ 0x200a) || n == 0x2028 || n == 0x2029 || n == 0x202f ||
    n == 0x205f || n == 0x3000

def trimEnd (text : String) : String :=
  String.ofList (text.toList.reverse.dropWhile isBlank).reverse

def trim (text : String) : String :=
  trimEnd (String.ofList (text.toList.dropWhile isBlank))

end FlatLisp.Text
