import FlatLisp.Proofs.Ending

/-!
Which evaluations end. Nothing but a `loop` list can go on without end: all
other lists evaluate parts of themselves, and the rounds of a `repeat` list are
counted before the first of them, so nothing that a round binds can add to
them. Rebinding names is of no help either, since no call of a value evaluates
a form.

A form without such lists takes the same way under every bound on the turns of
loops, and it comes to an end. With them it need not.
-/

namespace FlatLisp

namespace Evaluation

/-- Both actions end from every session, and in the same way. -/
def EndTogether ⦃α : Type⦄ (x y : Evaluation α) : Prop :=
  ∀ session, ∃ result later, x session = conclude result later ∧ y session = conclude result later

theorem Quiet.endTogether {α : Type} {x : Evaluation α} (h : Quiet x) : EndTogether x x := by
  rintro ⟨environment, output⟩
  obtain ⟨result, later, hx⟩ := h environment
  exact ⟨result, ⟨later, output⟩, hx output, hx output⟩

theorem endTogether_printLine (text : String) : EndTogether (printLine text) (printLine text) := by
  intro session
  unfold printLine
  cases Output.writeLine text session.output with
  | ok _ output => exact ⟨.ok (), _, rfl, rfl⟩
  | error message output => exact ⟨.error { fault := .output message }, _, rfl, rfl⟩

/-- Two actions that end together can be followed by others that do. -/
theorem endTogether_bind {α β : Type} {x y : Evaluation α} {f g : α → Evaluation β}
    (hx : EndTogether x y) (hf : ∀ value, EndTogether (f value) (g value)) :
    EndTogether (x >>= f) (y >>= g) := by
  intro session
  obtain ⟨result, between, hfirst, hsecond⟩ := hx session
  cases result with
  | ok value =>
      rw [bind_of_ok hfirst, bind_of_ok hsecond]
      exact hf value between
  | error failure =>
      rw [bind_of_error hfirst, bind_of_error hsecond]
      exact ⟨.error failure, between, rfl, rfl⟩

theorem endTogether_within {α : Type} (form : Form) {x y : Evaluation α} (h : EndTogether x y) :
    EndTogether (within form x) (within form y) := by
  intro session
  obtain ⟨result, later, hx, hy⟩ := h session
  exact ⟨_, later, within_of_conclude form hx, within_of_conclude form hy⟩

theorem congruence_endTogether : Congruence EndTogether where
  pure value := (quiet_pure value).endTogether
  bind := endTogether_bind
  fail fault := (quiet_fail fault).endTogether
  within form _ _ := endTogether_within form
  printLine := endTogether_printLine

/-- What ends together with itself under the smallest bound ends in one way
under all bounds. -/
theorem exists_conclude {α : Type} {x : Nat → Evaluation α}
    (h : ∀ turns, EndTogether (x 0) (x turns)) (session : Session) :
    ∃ result later, ∀ turns, x turns session = conclude result later := by
  obtain ⟨result, later, hresult, -⟩ := h 0 session
  refine ⟨result, later, fun turns => ?_⟩
  obtain ⟨other, otherLater, hzero, hturns⟩ := h turns session
  rw [hturns, ← hzero, hresult]

/-- Rounds that never fail, under a test that is always truthy, use up every
number of turns. -/
theorem loopFrom_unfinished {test : Evaluation Value} {body : Evaluation (Option Value)}
    (htest : ∀ session, ∃ value later, test session = .ok value later ∧ value.isTruthy = true)
    (hbody : ∀ session, ∃ last later, body session = .ok last later)
    (turns i : Nat) (result : Value) (session : Session) :
    ∃ later, loopFrom test body turns i result session = .error .unfinished later := by
  induction turns generalizing i result session with
  | zero => exact ⟨session, rfl⟩
  | succ turns ih =>
      have hcounter : setCounter i session = .ok () _ := rfl
      obtain ⟨value, tested, hvalue, htruthy⟩ := htest _
      obtain ⟨last, between, hlast⟩ := hbody tested
      obtain ⟨later, hrest⟩ := ih (i + 1) (last.getD result) between
      refine ⟨later, ?_⟩
      rw [loopFrom, bind_of_ok hcounter, bind_of_ok hvalue, if_pos htruthy, bind_of_ok hlast, hrest]

end Evaluation

namespace Form

open Evaluation

theorem respects_endTogether {form : Form} (h : ¬ form.HasListHeadedBy "loop") :
    form.Respects EndTogether where
  lookup name _ := (quiet_lookup name).endTogether
  assign name _ value := (quiet_assign name value).endTogether
  setCounter _ _ := (quiet_assign _ _).endTogether
  unfinished hloop := absurd hloop h

/-- Forms without loops end with the same result under every bound. -/
theorem exists_evalBody {forms : List Form} (h : ∀ form ∈ forms, ¬ form.HasListHeadedBy "loop")
    (session : Session) :
    ∃ result later, ∀ turns, evalBody turns forms session = conclude result later := by
  refine exists_conclude (fun turns => ?_) session
  exact evalBody_congr congruence_endTogether (Nat.zero_le turns) forms fun form hform =>
    respects_endTogether (h form hform)

/-- A form without a list headed by `loop` comes to an end, by a value or by a
failure, in every session, and no bound on the turns of loops has a part in
it. -/
theorem evaluation_terminates {form : Form} (h : ¬ form.HasListHeadedBy "loop")
    (session : Session) :
    ∃ result later, form.Ends session result later ∧
      ∀ turns, form.eval turns session = conclude result later := by
  obtain ⟨result, later, hresult⟩ :
      ∃ result later, ∀ turns, form.eval turns session = conclude result later := by
    refine exists_conclude (fun turns => ?_) session
    exact eval_congr congruence_endTogether (Nat.zero_le turns) form (respects_endTogether h)
  exact ⟨result, later, ⟨0, hresult 0⟩, hresult⟩

/-- Rounds inside rounds, where the counter is rebound to a larger number in
each of them. -/
theorem evaluation_terminates_nested :
    let inner := list [symbol "repeat", symbol "_",
      list [symbol "let", list [symbol "_", number (.integer 9223372036854775807)], symbol "_"]]
    let form := list [symbol "repeat", number (.integer 9223372036854775807), inner]
    ¬ form.HasListHeadedBy "loop" ∧ ∃ result later, form.Ends (Session.start {}) result later ∧
      ∀ turns, form.eval turns (Session.start {}) = conclude result later := by
  intro inner form
  have hloop : ¬ form.HasListHeadedBy "loop" := by decide
  exact ⟨hloop, evaluation_terminates hloop _⟩

/-- A loop whose test is a number never ends: no bound is large enough. -/
theorem loop_never_ends (value : Number) (session : Session) :
    ¬ ∃ result later, (list [symbol "loop", number value]).Ends session result later := by
  rintro ⟨result, later, turns, hend⟩
  have htest : ∀ session, ∃ given later,
      eval turns (number value) session = .ok given later ∧ given.isTruthy = true :=
    fun session => ⟨.number value, session, rfl, rfl⟩
  have hbody : ∀ session, ∃ last later, evalBody turns [] session = .ok last later :=
    fun session => ⟨none, session, rfl⟩
  obtain ⟨cut, hcut⟩ := loopFrom_unfinished htest hbody turns 0 .nil session
  obtain ⟨inner, hinner, -⟩ := within_eq_conclude hend
  rw [evalList_loop turns rfl] at hinner
  change loopFrom (eval turns (number value)) (evalBody turns []) turns 0 .nil session = _ at hinner
  rw [hcut] at hinner
  cases inner <;> cases hinner

end Form

end FlatLisp
