import FlatLisp.Proofs.Congruence

/-!
How evaluations end. The bound on the turns of loops is a means to define
evaluation and no part of its result: an action ends in some way if some bound
lets it get there. More turns never change an ending, so there is at most one,
and an evaluation without an ending is one that runs forever.

Both this and what is to be said about two sessions is a simulation: wherever
one action ends, the other one does too, with the same result, and sessions
that were related before are related after.
-/

namespace FlatLisp

namespace Evaluation

/-- What an action gives that came to its end, by a value or by a failure. -/
def conclude {α : Type} (result : Except Failure α) (later : Session) :
    EStateM.Result Stop Session α :=
  match result with
  | .ok value => .ok value later
  | .error failure => .error (.failed failure) later

/-- An action simulates another one from related sessions on: it ends wherever
that one ends, with the same result, and the sessions are related again. -/
def Simulates (A : Session → Session → Prop) ⦃α : Type⦄ (x y : Evaluation α) : Prop :=
  ∀ first second, A first second → ∀ result later, x first = conclude result later →
    ∃ other, y second = conclude result other ∧ A later other

theorem conclude_inj {α : Type} {result other : Except Failure α} {later otherLater : Session}
    (h : conclude result later = conclude other otherLater) :
    result = other ∧ later = otherLater := by
  cases result <;> cases other <;> simp_all [conclude]

theorem bind_of_ok {ε σ α β : Type} {x : EStateM ε σ α} {state between : σ} {value : α}
    (h : x state = .ok value between) (f : α → EStateM ε σ β) :
    (x >>= f) state = f value between := by
  change EStateM.bind x f state = _
  rw [EStateM.bind, h]

theorem bind_of_error {ε σ α β : Type} {x : EStateM ε σ α} {state later : σ} {stop : ε}
    (h : x state = .error stop later) (f : α → EStateM ε σ β) :
    (x >>= f) state = .error stop later := by
  change EStateM.bind x f state = _
  rw [EStateM.bind, h]

/-- A composed action ends where its second part ends, or fails where its first
part fails. -/
theorem bind_eq_conclude {α β : Type} {x : Evaluation α} {f : α → Evaluation β}
    {session later : Session} {result : Except Failure β}
    (h : (x >>= f) session = conclude result later) :
    (∃ value between, x session = conclude (.ok value) between ∧
        f value between = conclude result later) ∨
      ∃ failure, result = .error failure ∧ x session = conclude (.error failure) later := by
  cases hfirst : x session with
  | ok value between =>
      rw [bind_of_ok hfirst] at h
      exact .inl ⟨value, between, rfl, h⟩
  | error stop between =>
      rw [bind_of_error hfirst] at h
      cases result with
      | ok value => cases h
      | error failure =>
          obtain ⟨rfl, rfl⟩ : stop = .failed failure ∧ between = later := by
            simpa [conclude] using h
          exact .inr ⟨failure, rfl, rfl⟩

/-- An enclosing list adds itself to a failure and changes nothing else. -/
theorem within_of_conclude {α : Type} {x : Evaluation α} {session later : Session}
    {result : Except Failure α} (form : Form) (h : x session = conclude result later) :
    within form x session = conclude (result.mapError (·.within form)) later := by
  unfold within
  rw [h]
  cases result <;> rfl

/-- An action inside a list ends as the action does by itself, and the list is
added to the frames of its failure. -/
theorem within_eq_conclude {α : Type} {x : Evaluation α} {session later : Session} {form : Form}
    {result : Except Failure α} (h : within form x session = conclude result later) :
    ∃ inner, x session = conclude inner later ∧ result = inner.mapError (·.within form) := by
  unfold within at h
  cases hx : x session with
  | ok value between =>
      rw [hx] at h
      obtain ⟨rfl, rfl⟩ := conclude_inj (show conclude (.ok value) between = _ from h)
      exact ⟨.ok value, rfl, rfl⟩
  | error stop between =>
      rw [hx] at h
      cases stop with
      | unfinished => cases result <;> cases h
      | failed failure =>
          obtain ⟨rfl, rfl⟩ := conclude_inj
            (show conclude (.error (failure.within form)) between = _ from h)
          exact ⟨.error failure, rfl, rfl⟩

variable {A : Session → Session → Prop}

/-- Actions that always end simulate each other if they end alike. -/
theorem simulates_of_conclude {α : Type} {x y : Evaluation α}
    (h : ∀ first second, A first second → ∃ result later other,
      x first = conclude result later ∧ y second = conclude result other ∧ A later other) :
    Simulates A x y := by
  intro first second hA result later hend
  obtain ⟨actual, between, other, hx, hy, hother⟩ := h first second hA
  obtain ⟨rfl, rfl⟩ := conclude_inj (hx.symm.trans hend)
  exact ⟨other, hy, hother⟩

theorem simulates_unfinished {α : Type} (action : Evaluation α) :
    Simulates A (throw .unfinished) action := by
  intro first second hA result later hend
  cases result <;> cases hend

/-- Simulations can be put one after the other. -/
theorem simulates_bind {α β : Type} {x y : Evaluation α} {f g : α → Evaluation β}
    (hx : Simulates A x y) (hf : ∀ value, Simulates A (f value) (g value)) :
    Simulates A (x >>= f) (y >>= g) := by
  intro first second hA result later hend
  rcases bind_eq_conclude hend with ⟨value, between, hfirst, hnext⟩ | ⟨failure, rfl, hfirst⟩
  · obtain ⟨other, hother, hbetween⟩ := hx first second hA (.ok value) between hfirst
    rw [bind_of_ok hother]
    exact hf value between other hbetween result later hnext
  · obtain ⟨other, hother, hlater⟩ := hx first second hA (.error failure) later hfirst
    exact ⟨other, bind_of_error hother g, hlater⟩

theorem simulates_within {α : Type} (form : Form) {x y : Evaluation α} (hx : Simulates A x y) :
    Simulates A (within form x) (within form y) := by
  intro first second hA result later hend
  obtain ⟨inner, hinner, rfl⟩ := within_eq_conclude hend
  obtain ⟨other, hother, hlater⟩ := hx first second hA inner later hinner
  exact ⟨other, within_of_conclude form hother, hlater⟩

/-- Whether simulation passes from parts to actions hangs on printing alone. -/
theorem congruence_simulates (hprint : ∀ text, Simulates A (printLine text) (printLine text)) :
    Congruence (Simulates A) where
  pure value := simulates_of_conclude fun first second hA =>
    ⟨.ok value, first, second, rfl, rfl, hA⟩
  fail fault := simulates_of_conclude fun first second hA =>
    ⟨.error { fault }, first, second, rfl, rfl, hA⟩
  bind := simulates_bind
  within := simulates_within
  printLine := hprint

theorem simulates_self {α : Type} (action : Evaluation α) : Simulates Eq action action := by
  rintro session _ rfl result later hend
  exact ⟨later, hend, rfl⟩

/-- An action that neither reads nor changes the output and always ends. -/
def Quiet {α : Type} (x : Evaluation α) : Prop :=
  ∀ environment, ∃ result later, ∀ output, x ⟨environment, output⟩ = conclude result ⟨later, output⟩

theorem quiet_pure {α : Type} (value : α) : Quiet (pure value) := fun environment =>
  ⟨.ok value, environment, fun _ => rfl⟩

theorem quiet_fail {α : Type} (fault : Fault) : Quiet (fail fault : Evaluation α) :=
  fun environment => ⟨.error { fault }, environment, fun _ => rfl⟩

theorem quiet_assign (name : String) (value : Value) : Quiet (assign name value) :=
  fun environment => ⟨.ok (), environment.insert name value, fun _ => rfl⟩

/-- Looking up a symbol leaves the output alone, also when it fails. -/
theorem quiet_lookup (name : String) : Quiet (lookup name) := by
  intro environment
  cases hvalue : environment.lookup name with
  | none =>
      refine ⟨.error { fault := .unboundSymbol name }, environment, fun output => ?_⟩
      rw [lookup, hvalue]
      rfl
  | some value =>
      refine ⟨.ok value, environment, fun output => ?_⟩
      rw [lookup, hvalue]
      rfl

end Evaluation

namespace Form

open Evaluation

theorem respects_simulates_eq (form : Form) : form.Respects (Simulates Eq) where
  lookup _ _ := simulates_self _
  assign _ _ _ := simulates_self _
  setCounter _ _ := simulates_self _
  unfinished _ _ := simulates_unfinished

/-- How the evaluation of a form ends: with a result, and a session that it
leaves, if it does so under some bound. -/
def Ends (form : Form) (session : Session) (result : Except Failure Value) (later : Session) :
    Prop :=
  ∃ turns, form.eval turns session = conclude result later

/-- More turns never change how an evaluation ends. -/
theorem eval_of_le {m n : Nat} (hturns : m ≤ n) {form : Form} {session later : Session}
    {result : Except Failure Value} (h : form.eval m session = conclude result later) :
    form.eval n session = conclude result later := by
  have hsimulates : Simulates Eq (form.eval m) (form.eval n) :=
    eval_congr (congruence_simulates fun _ => simulates_self _) hturns form
      form.respects_simulates_eq
  obtain ⟨_, hn, rfl⟩ := hsimulates session session rfl result later h
  exact hn

/-- There is at most one way in which an evaluation ends. -/
theorem Ends.unique {form : Form} {session later otherLater : Session}
    {result other : Except Failure Value} (h : form.Ends session result later)
    (hother : form.Ends session other otherLater) : result = other ∧ later = otherLater := by
  obtain ⟨m, hm⟩ := h
  obtain ⟨n, hn⟩ := hother
  have hfirst := eval_of_le (Nat.le_max_left m n) hm
  have hsecond := eval_of_le (Nat.le_max_right m n) hn
  exact conclude_inj (hfirst.symm.trans hsecond)

end Form

end FlatLisp
