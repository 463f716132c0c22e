import FlatLisp.Proofs.Traversal

/-!
Relations between actions that evaluation respects, whatever values come up. A
relation that holds between the actions of an evaluation, and between composed
actions whenever it holds between their parts, holds between the evaluations
of a form. Properties of a single evaluation are the case of a relation that
looks at one side only.

The two sides may have different bounds on their loops; `eval_congr` is the
result.
-/

namespace FlatLisp

/-- A relation that passes from the parts of an action to the action. -/
structure Evaluation.Congruence (R : ∀ ⦃α : Type⦄, Evaluation α → Evaluation α → Prop) : Prop where
  pure : ∀ {α : Type} (value : α), R (pure value) (pure value)
  bind : ∀ {α β : Type} {x y : Evaluation α} {f g : α → Evaluation β},
    R x y → (∀ value, R (f value) (g value)) → R (x >>= f) (y >>= g)
  fail : ∀ {α : Type} (fault : Fault), R (fail fault : Evaluation α) (fail fault)
  within : ∀ {α : Type} (form : Form) {x y : Evaluation α},
    R x y → R (within form x) (within form y)
  printLine : ∀ text, R (printLine text) (printLine text)

/-- A relation that holds between the actions which depend on a form. -/
structure Form.Respects (form : Form) (R : ∀ ⦃α : Type⦄, Evaluation α → Evaluation α → Prop) :
    Prop where
  lookup : ∀ name ∈ form.symbols, R (Evaluation.lookup name) (Evaluation.lookup name)
  assign : ∀ name, form.HasLetName name → ∀ value,
    R (Evaluation.assign name value) (Evaluation.assign name value)
  setCounter : form.HasListHeadedBy "loop" ∨ form.HasListHeadedBy "repeat" → ∀ i,
    R (Evaluation.setCounter i) (Evaluation.setCounter i)
  unfinished : form.HasListHeadedBy "loop" → ∀ {α : Type} (action : Evaluation α),
    R (throw .unfinished) action

variable {R : ∀ ⦃α : Type⦄, Evaluation α → Evaluation α → Prop}

namespace Evaluation.Congruence

theorem ofExcept (C : Congruence R) {α : Type} (result : Except Fault α) :
    R (ofExcept result) (ofExcept result) := by
  cases result with
  | ok value => exact C.pure value
  | error fault => exact C.fail fault

/-- No call of a value does more than print, fail or give a value. -/
theorem call (C : Congruence R) (value : Value) (arguments : List Value) :
    R (call value arguments) (call value arguments) := by
  cases value with
  | builtin procedure =>
      cases procedure with
      | print => exact C.bind (C.printLine _) fun _ => C.pure _
      | _ => exact C.ofExcept _
  | _ => exact C.fail _

theorem tracks (C : Congruence R) : Tracks (fun _ => True) fun _ _ x y => R x y where
  number _ := trivial
  nil := trivial
  pure _ := C.pure _
  bind hx hf := C.bind hx fun result => hf result fun _ _ => trivial
  fail _ := C.fail _
  within form _ _ := C.within form
  call _ _ := C.call _ _

end Evaluation.Congruence

namespace Form

open Evaluation (Congruence)

theorem Respects.tracked {form : Form} (h : form.Respects R) :
    form.Tracked (fun _ => True) (fun _ _ x y => R x y) where
  text _ _ := trivial
  lookup := h.lookup
  assign name hname value _ := h.assign name hname value
  setCounter := h.setCounter
  unfinished hloop _ _ := h.unfinished hloop

/-- A relation that passes from parts to actions, and that a form respects,
holds between the evaluations of the form, if the left one is bounded by no
more turns than the right one. -/
theorem eval_congr (C : Congruence R) {m n : Nat} (hturns : m ≤ n) (form : Form)
    (h : form.Respects R) : R (form.eval m) (form.eval n) :=
  eval_tracks C.tracks hturns form h.tracked

theorem evalAll_congr (C : Congruence R) {m n : Nat} (hturns : m ≤ n) (forms : List Form)
    (h : ∀ form ∈ forms, form.Respects R) : R (evalAll m forms) (evalAll n forms) :=
  evalAll_tracks C.tracks hturns forms fun form hform => (h form hform).tracked

theorem evalBody_congr (C : Congruence R) {m n : Nat} (hturns : m ≤ n) (forms : List Form)
    (h : ∀ form ∈ forms, form.Respects R) : R (evalBody m forms) (evalBody n forms) :=
  evalBody_tracks C.tracks hturns forms fun form hform => (h form hform).tracked

end Form

end FlatLisp
