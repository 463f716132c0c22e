import FlatLisp.Form.Printer
import FlatLisp.Value

/-!
What can go wrong while a source is read or a form is evaluated. A fault is
the cause alone; a failure adds the lists that were being evaluated when it
arose, so its text shows the way from the fault outwards.
-/

namespace FlatLisp

inductive ArgumentCount where
  | exactly (n : Nat)
  | atLeast (n : Nat)
  | between (low high : Nat)
  deriving DecidableEq, Repr

inductive Expectation where
  | number
  | comparablePair
  | repeatCount
  deriving DecidableEq, Repr

inductive Fault where
  | unmatchedClose
  | unmatchedOpen
  | invalidNumber (text : String)
  | unboundSymbol (name : String)
  | notCallable (value : Value)
  | invalidArgument (given : Value) (expected : Expectation)
  | invalidForm (form : Form)
  | wrongArgumentCount (given : Nat) (expected : ArgumentCount)
  | arithmetic (fault : ArithmeticFault)
  | output (message : String)
  deriving DecidableEq, Repr

/-- A fault with the lists that enclose it, innermost first. -/
structure Failure where
  fault : Fault
  frames : List Form := []
  deriving DecidableEq, Repr

def countText (n : Nat) : String :=
  String.ofList (Nat.toDigits 10 n)

def ArgumentCount.text : ArgumentCount → String
  | .exactly n => countText n
  | .atLeast n => "at least " ++ countText n
  | .between low high => countText low ++ " to " ++ countText high

def Expectation.text : Expectation → String
  | .number => "a Number"
  | .comparablePair => "two Numbers or two Strings"
  | .repeatCount => "an Integer repeat count"

namespace Fault

/-- Whether the fault lies in the source text and not in its evaluation. -/
def isSyntactic : Fault → Bool
  | .unmatchedClose => true
  | .unmatchedOpen => true
  | .invalidNumber _ => true
  | _ => false

def text : Fault → String
  | .unmatchedClose => "Unexpected \")\""
  | .unmatchedOpen => "Unterminated list: expected \")\""
  | .invalidNumber text => "Invalid number literal: " ++ text
  | .unboundSymbol name => "Unbound symbol: \"" ++ name ++ "\""
  | .notCallable value => "Not callable: " ++ value.echo
  | .invalidArgument given expected =>
      "Invalid argument: given " ++ given.echo ++ ", expected " ++ expected.text
  | .invalidForm form => "Invalid S-exp for evaluation: " ++ form.source
  | .wrongArgumentCount given expected =>
      "Wrong argument count: given " ++ countText given ++ ", expected " ++ expected.text
  | .arithmetic fault => "Arithmetic error: " ++ fault.message
  | .output message => "I/O error: " ++ message

/-- The cause in words, behind a mark that tells the two families apart. -/
def message (fault : Fault) : String :=
  (if fault.isSyntactic then "[Syntax Error] " else "[Lang Error] ") ++ fault.text

end Fault

namespace Failure

def within (failure : Failure) (form : Form) : Failure :=
  { failure with frames := failure.frames ++ [form] }

def frameLines : Nat → List Form → String
  | _, [] => ""
  | i, form :: rest =>
      "\n" ++ countText i ++ ")  " ++ form.source ++ frameLines (i + 1) rest

/-- The whole text of a failure: its cause and one line per frame. -/
def message (failure : Failure) : String :=
  failure.fault.message ++ frameLines 0 failure.frames

end Failure

end FlatLisp
