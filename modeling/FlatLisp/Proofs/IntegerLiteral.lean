import FlatLisp.Proofs.Numeral
import Mathlib.Data.Nat.Digits.Defs

/-!
Integer literals: a minus or nothing, and then digits, however many there are
and however many of them are zeros in front. What is written is an integer
without bounds, the sum of its digits by the weights of their places. The
reader goes through the digits from the left and stops as soon as they exceed
the limit of their sign, which is one larger for negative integers.

The main statement is `integer_literals_exact`: a literal is read as the
integer that is written if that has 64 bits, and refused otherwise. A refused
literal is not tried as a floating-point number, although its text is one of
those that the reader of floating-point numbers takes.
-/

namespace FlatLisp

open FlatLisp.Text (digitValue splitSign isNumeral)
open FlatLisp.Number (InRange)

structure IntegerLiteral where
  negative : Bool
  digits : List Char
  digits_ne_nil : digits ≠ []
  isDigit_of_mem : ∀ c ∈ digits, c.isDigit = true

/-- Adding up digits by the weights of their places is the same as reading them
from the left. -/
theorem Text.ofDigits_digitValue (digits : List Char) :
    Nat.ofDigits 10 (digits.map digitValue).reverse = Nat.ofDigitChars 10 digits 0 := by
  induction digits with
  | nil => rfl
  | cons c rest ih =>
      have hread : Nat.ofDigitChars 10 (c :: rest) 0 = Nat.ofDigitChars 10 rest (digitValue c) := by
        rw [Nat.ofDigitChars_cons, Nat.mul_zero, Nat.zero_add]
        rfl
      have hplace : Nat.ofDigitChars 10 rest (digitValue c) =
          10 ^ rest.length * digitValue c + Nat.ofDigitChars 10 rest 0 :=
        Nat.ofDigitChars_eq_ofDigitChars_zero
      rw [List.map_cons, Nat.ofDigits_reverse_cons, ih, List.length_map,
        hread, hplace, Nat.add_comm]

theorem Number.inRange_iff {i : Int} : InRange i ↔ -2 ^ 63 ≤ i ∧ i < 2 ^ 63 := by
  unfold InRange
  omega

namespace IntegerLiteral

def text (literal : IntegerLiteral) : String :=
  String.ofList ((if literal.negative then ['-'] else []) ++ literal.digits)

/-- What the digits make up, the last of them being the units. -/
def size (literal : IntegerLiteral) : Nat :=
  Nat.ofDigits 10 (literal.digits.map digitValue).reverse

def value (literal : IntegerLiteral) : Int :=
  if literal.negative then -literal.size else literal.size

section

variable (literal : IntegerLiteral)

theorem toList_text :
    literal.text.toList = (if literal.negative then ['-'] else []) ++ literal.digits :=
  String.toList_ofList

theorem isDigit_head : ∀ c ∈ literal.digits.head?, c.isDigit = true := fun c hc =>
  literal.isDigit_of_mem c (List.mem_of_head? hc)

theorem isNumeral_text : isNumeral literal.text.toList = true := by
  rw [toList_text, Text.isNumeral_signed literal.isDigit_head]
  exact Text.isUnsignedNumeral_of_digits literal.digits_ne_nil literal.isDigit_of_mem

/-- The two limits of the reader are the ends of the range of 64-bit integers. -/
theorem inRange_value_iff :
    InRange literal.value ↔
      literal.size ≤ if literal.negative then Number.negativeLimit else Number.positiveLimit := by
  unfold value InRange Number.negativeLimit Number.positiveLimit
  split <;> omega

/-- An integer literal is read exactly, or it is out of range. There is one more
negative integer than there are positive ones, and the reader has a limit of its
own for each sign. -/
theorem integerOfText_text :
    Number.integerOfText literal.text =
      if InRange literal.value then .ok (.ofInt literal.value) else .error .outOfRange := by
  have hsplit : splitSign literal.text.toList = (literal.negative, literal.digits) := by
    rw [toList_text]
    exact Text.splitSign_signed literal.isDigit_head literal.negative
  rw [Number.integerOfText_of_digits hsplit literal.digits_ne_nil literal.isDigit_of_mem,
    ← Text.ofDigits_digitValue, if_congr literal.inRange_value_iff rfl rfl]
  rfl

theorem ofText_text :
    Atom.ofText literal.text =
      if InRange literal.value then .ok (.number (.integer (.ofInt literal.value)))
      else .error (.invalidNumber literal.text) := by
  rw [Atom.ofText_of_isNumeral literal.isNumeral_text, Number.ofText?, integerOfText_text]
  by_cases hrange : InRange literal.value
  · simp only [hrange, if_true]
  · simp only [hrange, if_false]

end

/-- An integer as it is written: in decimal, without zeros in front. -/
def ofInt (i : Int) : IntegerLiteral where
  negative := decide (i < 0)
  digits := Nat.toDigits 10 i.natAbs
  digits_ne_nil := Nat.toDigits_ne_nil
  isDigit_of_mem := Number.digits_of_toDigits i.natAbs

theorem text_ofInt (i : Int) : (ofInt i).text = Number.integerText i := by
  simp [text, ofInt, Number.integerText]

/-- The literal of an integer has that integer as its value. -/
theorem value_ofInt (i : Int) : (ofInt i).value = i := by
  have hsize : (ofInt i).size = i.natAbs := by
    rw [size, Text.ofDigits_digitValue]
    exact Nat.ofDigitChars_ten_toDigits
  unfold value
  rw [hsize]
  by_cases hsign : i < 0
  · simp only [ofInt, hsign, decide_true, if_true]
    omega
  · simp only [ofInt, hsign, decide_false, Bool.false_eq_true, if_false]
    omega

end IntegerLiteral

/-- An integer, whatever its size, is read back from its text as an atom. -/
theorem Atom.ofText_integer (i : Int64) :
    ofText (Number.text (.integer i)) = .ok (.number (.integer i)) := by
  have hrange : InRange i.toInt := Number.inRange_iff.mpr ⟨i.le_toInt, i.toInt_lt⟩
  have hread := (IntegerLiteral.ofInt i.toInt).ofText_text
  rw [IntegerLiteral.value_ofInt, IntegerLiteral.text_ofInt, if_pos hrange,
    Int64.ofInt_toInt] at hread
  exact hread

/-- An integer literal of any length is read as the integer that is written, if
that lies in the range of 64 bits, and is a fault that names the literal
otherwise. The text of each integer is such a literal; it says this integer and
is read as it. -/
theorem IntegerLiteral.integer_literals_exact (literal : IntegerLiteral) :
    (if -2 ^ 63 ≤ literal.value ∧ literal.value < 2 ^ 63 then
      ∃ i : Int64, i.toInt = literal.value ∧
        Atom.ofText literal.text = .ok (.number (.integer i))
    else Atom.ofText literal.text = .error (.invalidNumber literal.text)) ∧
    ∀ i : Int64, ∃ written : IntegerLiteral,
      written.text = (Number.integer i).text ∧ written.value = i.toInt ∧
        Atom.ofText (Number.integer i).text = .ok (.number (.integer i)) := by
  constructor
  · have hread := literal.ofText_text
    split
    next hfits =>
      have hrange := Number.inRange_iff.mpr hfits
      rw [if_pos hrange] at hread
      exact ⟨.ofInt literal.value, Number.toInt_ofInt_of_inRange hrange, hread⟩
    next hlarge => rwa [if_neg (mt Number.inRange_iff.mp hlarge)] at hread
  · intro i
    exact ⟨ofInt i.toInt, text_ofInt i.toInt, value_ofInt i.toInt, Atom.ofText_integer i⟩

end FlatLisp
