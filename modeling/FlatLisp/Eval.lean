import FlatLisp.Builtin.Call

/-!
Evaluation of forms. Lists headed by `if`, `loop`, `repeat` and `let` are
special forms, whatever these symbols are bound to; any other list calls the
value of its head. A failure inside a list carries that list as a frame.

Evaluation recurses on the form. Only `loop` can go on without end, so it
alone is bounded: no single loop takes more than `turns` tests, and a loop
that would is `unfinished`. An evaluation that ends with some bound ends the
same way with every larger one. The counter of a loop is a 64-bit integer, so
`maxTurns` cuts off nothing that could be counted.
-/

namespace FlatLisp

inductive SpecialForm where
  | choice
  | loop
  | repetition
  | binding
  deriving DecidableEq, Repr

def SpecialForm.ofHead? (head : Form) : Option SpecialForm :=
  match head.symbol? with
  | none => none
  | some name =>
      if name = "if" then some .choice
      else if name = "loop" then some .loop
      else if name = "repeat" then some .repetition
      else if name = "let" then some .binding
      else none

namespace Evaluation

def setCounter (i : Nat) : Evaluation Unit :=
  assign Environment.counter (.integer (.ofNat i))

/-- Rounds of a loop, numbered from `i` on, as long as the test is truthy. The
result is that of the last round whose body had one. -/
def loopFrom (test : Evaluation Value) (body : Evaluation (Option Value)) :
    (turns i : Nat) → (result : Value) → Evaluation Value
  | 0, _, _ => throw .unfinished
  | turns + 1, i, result => do
      setCounter i
      if (← test).isTruthy then
        let last ← body
        loopFrom test body turns (i + 1) (last.getD result)
      else
        return result

/-- A given number of rounds, numbered from `i` on. -/
def repeatFrom (body : Evaluation (Option Value)) :
    (rounds i : Nat) → (result : Value) → Evaluation Value
  | 0, _, result => return result
  | rounds + 1, i, result => do
      setCounter i
      let last ← body
      repeatFrom body rounds (i + 1) (last.getD result)

/-- The number of rounds that a value asks for; a negative one asks for none. -/
def repeatCount : Value → Evaluation Nat
  | .number (.integer i) => return i.toInt.toNat
  | value => fail (.invalidArgument value .repeatCount)

def call (value : Value) (arguments : List Value) : Evaluation Value :=
  match value with
  | .builtin procedure => procedure.call arguments
  | _ => fail (.notCallable value)

end Evaluation

def Atom.eval : Atom → Evaluation Value
  | .number value => return .number value
  | .text content => return .text content
  | .symbol name => Evaluation.lookup name

namespace Form

open Evaluation

mutual

def eval (turns : Nat) : Form → Evaluation Value
  | .atom value => value.eval
  | .list elements => within (.list elements) (evalList turns elements)

def evalList (turns : Nat) : List Form → Evaluation Value
  | [] => fail (.invalidForm (.list []))
  | head :: rest =>
      match SpecialForm.ofHead? head with
      | some .choice =>
          match rest with
          | [test, consequent] => do
              if (← eval turns test).isTruthy then eval turns consequent else return .nil
          | [test, consequent, alternative] => do
              if (← eval turns test).isTruthy then eval turns consequent
              else eval turns alternative
          | _ => fail (.wrongArgumentCount rest.length (.between 2 3))
      | some .loop =>
          match rest with
          | [] => fail (.invalidForm (.list [head]))
          | test :: body => loopFrom (eval turns test) (evalBody turns body) turns 0 .nil
      | some .repetition =>
          match rest with
          | [] => fail (.invalidForm (.list [head]))
          | count :: body => do
              let rounds ← repeatCount (← eval turns count)
              repeatFrom (evalBody turns body) rounds 1 .nil
      | some .binding =>
          match rest with
          | .list bindings :: body => do
              if bindings.length % 2 = 0 then
                evalBindings turns bindings
                return (← evalBody turns body).getD .nil
              else fail (.invalidForm (.list bindings))
          | _ => fail (.invalidForm (.list (head :: rest)))
      | none => do
          let procedure ← eval turns head
          let arguments ← evalAll turns rest
          call procedure arguments

def evalAll (turns : Nat) : List Form → Evaluation (List Value)
  | [] => return []
  | form :: rest => do
      let value ← eval turns form
      let values ← evalAll turns rest
      return value :: values

/-- The value of the last form, after all forms before it; there is none
without forms. -/
def evalBody (turns : Nat) : List Form → Evaluation (Option Value)
  | [] => return none
  | form :: rest => do
      let value ← eval turns form
      let last ← evalBody turns rest
      return some (last.getD value)

/-- Binds names to the values of the forms that follow them. Each binding is
made before the next name is looked at. -/
def evalBindings (turns : Nat) : List Form → Evaluation Unit
  | name :: form :: rest =>
      match name.symbol? with
      | some symbol => do
          let value ← eval turns form
          assign symbol value
          evalBindings turns rest
      | none => fail (.invalidForm name)
  | _ => return ()

end

section

variable (turns : Nat) {head : Form}

theorem evalList_choice (h : SpecialForm.ofHead? head = some .choice) (rest : List Form) :
    evalList turns (head :: rest) =
      match rest with
      | [test, consequent] => do
          if (← eval turns test).isTruthy then eval turns consequent else return .nil
      | [test, consequent, alternative] => do
          if (← eval turns test).isTruthy then eval turns consequent
          else eval turns alternative
      | _ => fail (.wrongArgumentCount rest.length (.between 2 3)) := by
  rw [evalList.eq_def]
  simp only [h]

theorem evalList_loop (h : SpecialForm.ofHead? head = some .loop) (rest : List Form) :
    evalList turns (head :: rest) =
      match rest with
      | [] => fail (.invalidForm (.list [head]))
      | test :: body => loopFrom (eval turns test) (evalBody turns body) turns 0 .nil := by
  rw [evalList.eq_def]
  simp only [h]

theorem evalList_repetition (h : SpecialForm.ofHead? head = some .repetition) (rest : List Form) :
    evalList turns (head :: rest) =
      match rest with
      | [] => fail (.invalidForm (.list [head]))
      | count :: body =>
          eval turns count >>= fun value => repeatCount value >>= fun rounds =>
            repeatFrom (evalBody turns body) rounds 1 .nil := by
  rw [evalList.eq_def]
  simp only [h]

theorem evalList_binding (h : SpecialForm.ofHead? head = some .binding) (rest : List Form) :
    evalList turns (head :: rest) =
      match rest with
      | .list bindings :: body => do
          if bindings.length % 2 = 0 then
            evalBindings turns bindings
            return (← evalBody turns body).getD .nil
          else fail (.invalidForm (.list bindings))
      | _ => fail (.invalidForm (.list (head :: rest))) := by
  rw [evalList.eq_def]
  simp only [h]

theorem evalList_call (h : SpecialForm.ofHead? head = none) (rest : List Form) :
    evalList turns (head :: rest) =
      (eval turns head >>= fun procedure => evalAll turns rest >>= fun arguments =>
        call procedure arguments) := by
  rw [evalList.eq_def]
  simp only [h]

end

/-- The number of tests that a loop may take when nothing else is said: one for
each value that its counter can have. -/
def maxTurns : Nat := 9223372036854775808

end Form

end FlatLisp
