import FlatLisp.Fault
import FlatLisp.Number.Reader
import FlatLisp.Text.Digits

/-!
What an atom is follows from its text alone: a text between two quotes, a
numeral, or else a symbol. A numeral is decided by its shape, so one that is
too large, or written in digits of another script, is a fault and not a
symbol.
-/

namespace FlatLisp

/-- The content of a text that consists of two quotes and what stands between
them. -/
def Text.unquote? : List Char → Option (List Char)
  | '"' :: rest =>
      if rest.getLast? = some '"' ∧ '"' ∉ rest.dropLast then some rest.dropLast else none
  | _ => none

/-- Whether a text has digits, and optionally a point and more digits. -/
def Text.isUnsignedNumeral (text : List Char) : Bool :=
  !(text.takeWhile isDecimalDigit).isEmpty &&
    match text.dropWhile isDecimalDigit with
    | [] => true
    | '.' :: fraction => !fraction.isEmpty && fraction.all isDecimalDigit
    | _ => false

def Text.isNumeral : List Char → Bool
  | '-' :: rest => isUnsignedNumeral rest
  | text => isUnsignedNumeral text

def Atom.ofText (text : String) : Except Fault Atom :=
  match Text.unquote? text.toList with
  | some content => .ok (.text (String.ofList content))
  | none =>
      if Text.isNumeral text.toList then
        match Number.ofText? text with
        | some value => .ok (.number value)
        | none => .error (.invalidNumber text)
      else .ok (.symbol text)

end FlatLisp
