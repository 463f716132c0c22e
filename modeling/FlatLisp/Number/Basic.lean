import FlatLisp.Binary64.Arithmetic

/-!
Numbers are 64-bit integers or floating-point numbers. Two integers give an
integer, exactly or not at all; as soon as one side is floating-point both are
taken as such, and then every operation has a result.
-/

namespace FlatLisp

inductive Number where
  | integer (i : Int64)
  | float (x : Binary64)
  deriving DecidableEq, Repr

inductive ArithmeticFault where
  | overflow
  | divisionByZero
  deriving DecidableEq, Repr

def ArithmeticFault.message : ArithmeticFault → String
  | .overflow => "integer overflow"
  | .divisionByZero => "division by zero"

namespace Number

/-- A number as a floating-point number; a large integer is rounded. -/
def toFloat : Number → Binary64
  | .integer i => .ofInt i.toInt
  | .float x => x

/-- Whether an integer fits into 64 bits, that is, lies between `-2 ^ 63` and
`2 ^ 63 - 1`. -/
def InRange (i : Int) : Prop := -9223372036854775808 ≤ i ∧ i ≤ 9223372036854775807

instance (i : Int) : Decidable (InRange i) := inferInstanceAs (Decidable (_ ∧ _))

/-- The exact result of an operation on integers, if it fits. -/
def exact (i : Int) : Except ArithmeticFault Number :=
  if InRange i then .ok (.integer (.ofInt i)) else .error .overflow

def add : Number → Number → Except ArithmeticFault Number
  | .integer a, .integer b => exact (a.toInt + b.toInt)
  | a, b => .ok (.float (a.toFloat.add b.toFloat))

def sub : Number → Number → Except ArithmeticFault Number
  | .integer a, .integer b => exact (a.toInt - b.toInt)
  | a, b => .ok (.float (a.toFloat.sub b.toFloat))

def mul : Number → Number → Except ArithmeticFault Number
  | .integer a, .integer b => exact (a.toInt * b.toInt)
  | a, b => .ok (.float (a.toFloat.mul b.toFloat))

/-- Division; that of integers rounds toward zero. -/
def div : Number → Number → Except ArithmeticFault Number
  | .integer a, .integer b =>
      if b = 0 then .error .divisionByZero else exact (a.toInt.tdiv b.toInt)
  | a, b => .ok (.float (a.toFloat.div b.toFloat))

/-- Numeric order: exact between integers, that of the floating-point values
otherwise. A NaN is unordered. -/
def compare? : Number → Number → Option Ordering
  | .integer a, .integer b => some (compare a.toInt b.toInt)
  | a, b => a.toFloat.compare? b.toFloat

/-- Equality of the same kind of number: an integer never equals a
floating-point number, and of those NaN differs from itself while the two
zeros are equal. -/
def equal : Number → Number → Bool
  | .integer a, .integer b => a == b
  | .float x, .float y => x.equal y
  | _, _ => false

/-- The integer that `exact` stores is the one it was given. -/
theorem toInt_ofInt_of_inRange {i : Int} (h : InRange i) : (Int64.ofInt i).toInt = i := by
  obtain ⟨low, high⟩ := h
  rw [Int64.toInt_ofInt]
  simp only [Int64.size]
  rw [Int.bmod_eq_of_le] <;> omega

end Number

end FlatLisp
