import FlatLisp.Binary64.Printer
import FlatLisp.Number.Basic

/-!
The text of a number. Integers are written in decimal without a point, so the
two kinds of numbers can be told apart by their texts.
-/

namespace FlatLisp.Number

def integerText (i : Int) : String :=
  String.ofList ((if i < 0 then ['-'] else []) ++ Nat.toDigits 10 i.natAbs)

def text : Number → String
  | .integer i => integerText i.toInt
  | .float x => x.text

end FlatLisp.Number
