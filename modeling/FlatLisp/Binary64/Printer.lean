import FlatLisp.Binary64.Shortest

/-!
The text of a floating-point number. A whole number is written out exactly and
ends in `.0`, so that it is read back as a floating-point number; any other
finite number is written with its shortest decimal, never with an exponent.
-/

namespace FlatLisp.Binary64

def magnitudeText (rank : Nat) : List Char :=
  if rank = infinityRank then "inf".toList
  else if units rank % unitsPerOne = 0 then
    Nat.toDigits 10 (units rank / unitsPerOne) ++ ".0".toList
  else (Decimal.shortest rank).positional

/-- The text of a number. Zero and infinity keep their sign. -/
def text : Binary64 → String
  | .nan => "NaN"
  | .signed negative rank =>
      String.ofList ((if negative then ['-'] else []) ++ magnitudeText rank.val)

end FlatLisp.Binary64
