import FlatLisp.Binary64.Reader
import FlatLisp.Number.Basic

/-!
Reading a number from its text. The text is tried as an integer first, from
left to right, and the first bad character or the first digit too many decides
why it is none. A text that has too many digits is no number at all; any other
text that is no integer is tried as a floating-point number. Hence the digits
before a decimal point must fit into an integer.
-/

namespace FlatLisp.Number

open FlatLisp.Text (digitValue splitSign)

inductive IntegerFault where
  | malformed
  | outOfRange
  deriving DecidableEq, Repr

/-- Reads digits as long as the value stays within a limit. -/
def magnitude (limit : Nat) : Nat → List Char → Except IntegerFault Nat
  | value, [] => .ok value
  | value, c :: rest =>
      if ¬ c.isDigit then .error .malformed
      else if limit < 10 * value + digitValue c then .error .outOfRange
      else magnitude limit (10 * value + digitValue c) rest

/-- The size of the least integer. There is one more negative integer than there
are positive ones. -/
def negativeLimit : Nat := 9223372036854775808

def positiveLimit : Nat := 9223372036854775807

/-- Reads an optional sign and at least one digit. -/
def integerOfText (text : String) : Except IntegerFault Int64 :=
  let (negative, digits) := splitSign text.toList
  if digits = [] then .error .malformed
  else if negative then (magnitude negativeLimit 0 digits).map fun n => .ofInt (-n)
  else (magnitude positiveLimit 0 digits).map fun n => .ofInt n

def ofText? (text : String) : Option Number :=
  match integerOfText text with
  | .ok i => some (.integer i)
  | .error .outOfRange => none
  | .error .malformed => (Binary64.ofText? text).map .float

end FlatLisp.Number
