import FlatLisp.Builtin.Basic
import FlatLisp.Number.Printer

/-!
Values are what forms evaluate to. Only `false` and `nil` are falsy; zero and
the empty text are not.
-/

namespace FlatLisp

inductive Value where
  | number (value : Number)
  | text (content : String)
  | boolean (value : Bool)
  | builtin (procedure : Builtin)
  /-- The absence of a result, as of a loop whose body never ran. -/
  | nil
  deriving DecidableEq, Repr

namespace Value

def integer (i : Int64) : Value := .number (.integer i)

def isTruthy : Value → Bool
  | .boolean false => false
  | .nil => false
  | _ => true

def isNil : Value → Bool
  | .nil => true
  | _ => false

/-- The text that `print` writes. -/
def display : Value → String
  | .number value => value.text
  | .text content => content
  | .boolean true => "true"
  | .boolean false => "false"
  | .builtin procedure => "[BUILTIN_" ++ procedure.name ++ "]"
  | .nil => "nil"

/-- The text that answers and error messages show: a text stands in quotes. -/
def echo : Value → String
  | .text content => "\"" ++ content ++ "\""
  | value => value.display

/-- Equality of values as the language sees it: numbers are compared by value
and within their kind. -/
def equal : Value → Value → Bool
  | .number a, .number b => a.equal b
  | .text a, .text b => a == b
  | .boolean a, .boolean b => a == b
  | .builtin a, .builtin b => a == b
  | .nil, .nil => true
  | _, _ => false

end Value

end FlatLisp
