import FlatLisp.Binary64.Rounding
import FlatLisp.Text.Digits

/-!
Reading floating-point text. A number has an optional sign, then digits with
at most one point among them or at either end, then optionally an exponent;
`inf`, `infinity` and `nan` are read in any case. Nothing else may stand in the
text. The value is the nearest number.
-/

namespace FlatLisp.Binary64

open FlatLisp.Text (digitValue digitsValue splitSign)

/-- From here on further digits of an exponent are passed over: the number is
zero or infinite by then. -/
def exponentLimit : Nat := 65536

def exponentValue (digits : List Char) : Nat :=
  digits.foldl
    (fun value c => if value < exponentLimit then 10 * value + digitValue c else value) 0

/-- What follows the mark of an exponent: an optional sign and digits. -/
def exponent? (text : List Char) : Option Int :=
  let (negative, digits) := splitSign text
  if digits = [] ∨ ¬ digits.all Char.isDigit then none
  else if negative then some (-(exponentValue digits : Int))
  else some (exponentValue digits)

def optionalExponent? : List Char → Option Int
  | [] => some 0
  | mark :: rest => if mark = 'e' ∨ mark = 'E' then exponent? rest else none

/-- The digits behind the point, if there is one, and what follows them. -/
def splitFraction : List Char → List Char × List Char
  | '.' :: rest => (rest.takeWhile Char.isDigit, rest.dropWhile Char.isDigit)
  | rest => ([], rest)

def decimal? (negative : Bool) (text : List Char) : Option Binary64 :=
  let whole := text.takeWhile Char.isDigit
  let (fraction, rest) := splitFraction (text.dropWhile Char.isDigit)
  if whole = [] ∧ fraction = [] then none
  else
    (optionalExponent? rest).map fun exponent =>
      ofDecimal negative (digitsValue (whole ++ fraction)) (exponent - fraction.length)

def named? (negative : Bool) (text : List Char) : Option Binary64 :=
  let name := String.ofList (text.map Char.toLower)
  if name = "nan" then some .nan
  else if name = "inf" ∨ name = "infinity" then some (infinity negative)
  else none

def ofText? (text : String) : Option Binary64 :=
  let (negative, body) := splitSign text.toList
  decimal? negative body <|> named? negative body

end FlatLisp.Binary64
