import FlatLisp.Session

/-!
What the builtins do. The arithmetic ones work from left to right and stop at
the first argument that is no number and at the first step without a result;
`+` also joins texts if all its arguments are texts. The comparisons take two
numbers or two texts. Only `print` touches the session.
-/

namespace FlatLisp

def Value.asNumber : Value → Except Fault Number
  | .number value => .ok value
  | value => .error (.invalidArgument value .number)

def Value.text? : Value → Option String
  | .text content => some content
  | _ => none

def Value.isComparable : Value → Bool
  | .number _ => true
  | .text _ => true
  | _ => false

namespace Builtin

def combine (op : Number → Number → Except ArithmeticFault Number) (total : Number)
    (argument : Value) : Except Fault Number := do
  let value ← argument.asNumber
  (op total value).mapError .arithmetic

/-- Combines all arguments from left to right, starting with the first. -/
def arithmetic (op : Number → Number → Except ArithmeticFault Number) :
    List Value → Except Fault Value
  | [] => .error (.wrongArgumentCount 0 (.atLeast 1))
  | first :: rest => do
      let start ← first.asNumber
      let total ← rest.foldlM (combine op) start
      return .number total

def sum (arguments : List Value) : Except Fault Value :=
  match arguments.mapM Value.text? with
  | some (first :: rest) => .ok (.text (String.join (first :: rest)))
  | _ => arithmetic Number.add arguments

/-- Arguments that are all texts are told by their contents. -/
theorem mapM_text?_eq_some_iff {arguments : List Value} {contents : List String} :
    arguments.mapM Value.text? = some contents ↔ arguments = contents.map .text := by
  induction arguments generalizing contents with
  | nil => cases contents <;> simp
  | cons first rest ih =>
      rw [List.mapM_cons]
      cases first with
      | text content =>
          cases contents with
          | nil => simp [Value.text?, Option.bind_eq_some_iff]
          | cons other others => simpa [Value.text?, Option.bind_eq_some_iff, ih] using and_comm
      | _ => cases contents <;> simp [Value.text?]

/-- Whether two values stand in a given order. If they cannot be compared, the
second one is to blame when the first could be compared with another. -/
def ordered (order : Ordering) : List Value → Except Fault Value
  | [.number a, .number b] => .ok (.boolean (a.compare? b == some order))
  | [.text a, .text b] => .ok (.boolean (compare a b == order))
  | [a, b] => .error (.invalidArgument (if a.isComparable then b else a) .comparablePair)
  | arguments => .error (.wrongArgumentCount arguments.length (.exactly 2))

/-- Drops one line ending from the end of a text: a newline, a carriage return
or both. -/
def chomp (text : String) : String :=
  match text.toList.reverse with
  | '\n' :: '\r' :: rest => String.ofList rest.reverse
  | '\n' :: rest => String.ofList rest.reverse
  | '\r' :: rest => String.ofList rest.reverse
  | _ => text

/-- Prints the arguments on one line and gives that line back. -/
def printAll (arguments : List Value) : Evaluation Value := do
  let line := chomp (String.intercalate " " (arguments.map Value.display))
  Evaluation.printLine line
  return .text line

def call : Builtin → List Value → Evaluation Value
  | .add, arguments => .ofExcept (sum arguments)
  | .sub, arguments => .ofExcept (arithmetic Number.sub arguments)
  | .mul, arguments => .ofExcept (arithmetic Number.mul arguments)
  | .div, arguments => .ofExcept (arithmetic Number.div arguments)
  | .less, arguments => .ofExcept (ordered .lt arguments)
  | .greater, arguments => .ofExcept (ordered .gt arguments)
  | .print, arguments => printAll arguments

end Builtin

end FlatLisp
