import FlatLisp.Environment
import FlatLisp.Fault
import FlatLisp.Output

/-!
A session is the state that evaluation reads and changes: the environment and
the output. What a failed evaluation has bound and printed before it failed
stays.
-/

namespace FlatLisp

structure Session where
  environment : Environment
  output : Output := {}

/-- Why an evaluation gives no value: it failed, or it was cut off because a
loop took more rounds than it was allowed to. -/
inductive Stop where
  | failed (failure : Failure)
  | unfinished
  deriving DecidableEq, Repr

abbrev Evaluation := EStateM Stop Session

namespace Evaluation

variable {α : Type}

/-- Fails with a fault that has no frames yet. -/
def fail (fault : Fault) : Evaluation α :=
  throw (.failed { fault })

def ofExcept : Except Fault α → Evaluation α
  | .ok value => pure value
  | .error fault => fail fault

def within (form : Form) (action : Evaluation α) : Evaluation α := fun session =>
  match action session with
  | .error (.failed failure) later => .error (.failed (failure.within form)) later
  | result => result

def lookup (name : String) : Evaluation Value := fun session =>
  match session.environment.lookup name with
  | some value => .ok value session
  | none => fail (.unboundSymbol name) session

def assign (name : String) (value : Value) : Evaluation Unit := fun session =>
  .ok () { session with environment := session.environment.insert name value }

def printLine (text : String) : Evaluation Unit := fun session =>
  match Output.writeLine text session.output with
  | .ok _ output => .ok () { session with output }
  | .error message output => fail (.output message) { session with output }

end Evaluation

def Session.start (output : Output) : Session :=
  { environment := .global, output }

end FlatLisp
