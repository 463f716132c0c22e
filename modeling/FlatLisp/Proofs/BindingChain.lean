import FlatLisp.Proofs.Ending

/-!
A `let` list with several bindings does what lists with one binding each do,
one inside the other. The bindings are made one by one in the environment that
all forms share, so it makes no difference where one list ends and the next
one begins, not even if a binding or a body form fails half way. Only the
frames of a failure show the difference: they name the lists around it.

So evaluations are compared here without the frames of their failures.
Leaving them out passes from an action to its parts, and `within` goes away.
-/

namespace FlatLisp

namespace Evaluation

variable {α β : Type}

/-- An action whose failures do not tell in which lists they arose. -/
def withoutFrames (x : Evaluation α) : Evaluation α := fun session =>
  match x session with
  | .error (.failed failure) later => .error (.failed { fault := failure.fault }) later
  | result => result

@[simp] theorem withoutFrames_within (form : Form) (x : Evaluation α) :
    withoutFrames (within form x) = withoutFrames x := by
  funext session
  unfold withoutFrames within
  cases x session with
  | ok value later => rfl
  | error stop later => cases stop <;> rfl

/-- The frames of a failure can be erased part by part: what fails in the second
part has the frames that are erased there. -/
@[simp] theorem withoutFrames_bind (x : Evaluation α) (f : α → Evaluation β) :
    withoutFrames (x >>= f) = withoutFrames x >>= fun value => withoutFrames (f value) := by
  funext session
  cases hx : x session with
  | ok value between =>
      have hplain : withoutFrames x session = .ok value between := by rw [withoutFrames, hx]
      rw [bind_of_ok hplain, withoutFrames, bind_of_ok hx]
      rfl
  | error stop later =>
      cases stop with
      | failed failure =>
          have hplain : withoutFrames x session =
              .error (.failed { fault := failure.fault }) later := by rw [withoutFrames, hx]
          rw [bind_of_error hplain, withoutFrames, bind_of_error hx]
      | unfinished =>
          have hplain : withoutFrames x session = .error .unfinished later := by
            rw [withoutFrames, hx]
          rw [bind_of_error hplain, withoutFrames, bind_of_error hx]

/-- Where an action ends it does so without its frames too, and the other way
round. -/
theorem withoutFrames_eq_conclude_iff {x : Evaluation α} {session later : Session}
    {result : Except Fault α} :
    withoutFrames x session = conclude (result.mapError fun fault => { fault }) later ↔
      ∃ ending, x session = conclude ending later ∧ ending.mapError Failure.fault = result := by
  constructor
  · intro h
    unfold withoutFrames at h
    cases hx : x session with
    | ok value between =>
        rw [hx] at h
        obtain ⟨hresult, rfl⟩ := conclude_inj (show conclude (.ok value) between = _ from h)
        refine ⟨.ok value, rfl, ?_⟩
        cases result <;> cases hresult
        rfl
    | error stop between =>
        rw [hx] at h
        cases stop with
        | unfinished => cases result <;> cases h
        | failed failure =>
            obtain ⟨hresult, rfl⟩ := conclude_inj
              (show conclude (.error { fault := failure.fault }) between = _ from h)
            refine ⟨.error failure, rfl, ?_⟩
            cases result <;> cases hresult
            rfl
  · rintro ⟨ending, hend, rfl⟩
    rw [withoutFrames, hend]
    cases ending <;> rfl

end Evaluation

namespace Form

open Evaluation

/-- How the evaluation of a form ends, if the frames of a failure are left
aside. -/
def Outcome (form : Form) (session : Session) (result : Except Fault Value) (later : Session) :
    Prop :=
  ∃ ending, form.Ends session ending later ∧ ending.mapError Failure.fault = result

/-- Forms whose evaluations differ in nothing but frames have the same
outcomes. -/
theorem Outcome.of_withoutFrames {form other : Form}
    (h : ∀ turns, withoutFrames (form.eval turns) = withoutFrames (other.eval turns))
    {session later : Session} {result : Except Fault Value}
    (houtcome : form.Outcome session result later) : other.Outcome session result later := by
  obtain ⟨ending, ⟨turns, hend⟩, hresult⟩ := houtcome
  have hplain := withoutFrames_eq_conclude_iff.mpr ⟨ending, hend, hresult⟩
  rw [h turns] at hplain
  obtain ⟨otherEnding, hother, hsame⟩ := withoutFrames_eq_conclude_iff.mp hplain
  exact ⟨otherEnding, ⟨turns, hother⟩, hsame⟩

theorem outcome_congr {form other : Form}
    (h : ∀ turns, withoutFrames (form.eval turns) = withoutFrames (other.eval turns))
    (session : Session) (result : Except Fault Value) (later : Session) :
    form.Outcome session result later ↔ other.Outcome session result later :=
  ⟨.of_withoutFrames h, .of_withoutFrames fun turns => (h turns).symm⟩

def letForm (bindings body : List Form) : Form :=
  list (symbol "let" :: list bindings :: body)

/-- `let` lists with one binding each, every one of them the body of the one
before it. -/
def letChain : List Form → List Form → Form
  | name :: form :: rest, body => letForm [name, form] [letChain rest body]
  | _, body => letForm [] body

section

variable (turns : Nat)

theorem eval_letForm {bindings : List Form} (h : bindings.length % 2 = 0) (body : List Form) :
    eval turns (letForm bindings body) =
      within (letForm bindings body) (evalBindings turns bindings >>= fun _ =>
        evalBody turns body >>= fun last => pure (last.getD .nil)) := by
  rw [letForm, eval, evalList_binding turns rfl]
  simp only [h, if_true]

theorem evalBindings_cons_cons (name form : Form) (rest : List Form) :
    evalBindings turns (name :: form :: rest) =
      evalBindings turns [name, form] >>= fun _ => evalBindings turns rest := by
  rw [evalBindings, evalBindings]
  cases name.symbol? with
  | none => rfl
  | some symbol => simp [evalBindings]

/-- A list with one binding and one body form makes the binding and gives what
the form gives. -/
theorem withoutFrames_eval_single (name form inner : Form) :
    withoutFrames (eval turns (letForm [name, form] [inner])) =
      withoutFrames (evalBindings turns [name, form]) >>= fun _ =>
        withoutFrames (eval turns inner) := by
  have hbody : (evalBody turns [inner] >>= fun last => pure (last.getD .nil)) =
      eval turns inner := by
    simp [evalBody]
  rw [eval_letForm turns (by simp), hbody, withoutFrames_within, withoutFrames_bind]

/-- The first binding of a `let` list can be split off. Both sides make the same
bindings in the same order and then evaluate the same body; only the frames of a
failure tell them apart. -/
theorem withoutFrames_eval_cons_cons (name form : Form) {rest : List Form}
    (h : rest.length % 2 = 0) (body : List Form) :
    withoutFrames (eval turns (letForm (name :: form :: rest) body)) =
      withoutFrames (eval turns (letForm [name, form] [letForm rest body])) := by
  have hall : (name :: form :: rest).length % 2 = 0 := by
    rw [List.length_cons, List.length_cons]
    omega
  rw [withoutFrames_eval_single, eval_letForm turns hall, eval_letForm turns h,
    evalBindings_cons_cons]
  simp

/-- By splitting off one binding after another, a `let` list becomes a chain. -/
theorem withoutFrames_eval_chain {bindings : List Form} (h : bindings.length % 2 = 0)
    (body : List Form) :
    withoutFrames (eval turns (letForm bindings body)) =
      withoutFrames (eval turns (letChain bindings body)) := by
  -- the first binding is taken off, and the rest is a chain inside its body
  fun_induction letChain bindings body with
  | case1 name form rest body ih =>
      have hrest : rest.length % 2 = 0 := by
        rw [List.length_cons, List.length_cons] at h
        omega
      rw [withoutFrames_eval_cons_cons turns name form hrest, withoutFrames_eval_single, ih hrest,
        ← withoutFrames_eval_single]
  | case2 bindings body hshort =>
      cases bindings with
      | nil => rfl
      | cons name rest =>
          cases rest with
          | nil => cases h
          | cons form rest => exact absurd rfl (hshort name form rest)

end

/-- A `let` list with several bindings is a chain of lists with one binding
each. Taking the first binding off gives a list with that binding around one
with the others, and doing so with all of them gives the chain. The outcome is
the same: the value or the fault, and the session with all that was bound and
printed, also where a name, a bound form or a body form fails half way. -/
theorem let_chains_bindings {bindings : List Form} (heven : bindings.length % 2 = 0)
    (name form : Form) (body : List Form) (session : Session) (result : Except Fault Value)
    (later : Session) :
    ((letForm (name :: form :: bindings) body).Outcome session result later ↔
      (letForm [name, form] [letForm bindings body]).Outcome session result later) ∧
    ((letForm (name :: form :: bindings) body).Outcome session result later ↔
      (letChain (name :: form :: bindings) body).Outcome session result later) := by
  have hall : (name :: form :: bindings).length % 2 = 0 := by
    rw [List.length_cons, List.length_cons]
    omega
  constructor
  · apply outcome_congr
    intro turns
    exact withoutFrames_eval_cons_cons turns name form heven body
  · apply outcome_congr
    intro turns
    exact withoutFrames_eval_chain turns hall body

/-- A text in the place of the second name: the first binding stays. -/
theorem let_chains_bindings_half_way :
    let bindings := [text "y", symbol "x"]
    let one := number (.integer 1)
    let session := Session.start {}
    let later : Session :=
      { session with environment := session.environment.insert "x" (.integer 1) }
    bindings.length % 2 = 0 ∧
      (letForm (symbol "x" :: one :: bindings) [symbol "x"]).Outcome session
        (.error (.invalidForm (text "y"))) later ∧
      (letForm [symbol "x", one] [letForm bindings [symbol "x"]]).Outcome session
        (.error (.invalidForm (text "y"))) later ∧
      (letChain (symbol "x" :: one :: bindings) [symbol "x"]).Outcome session
        (.error (.invalidForm (text "y"))) later := by
  intro bindings one session later
  have heven : bindings.length % 2 = 0 := by decide
  have hwhole : (letForm (symbol "x" :: one :: bindings) [symbol "x"]).Outcome session
      (.error (.invalidForm (text "y"))) later := by
    simp only [bindings, one, session, later]
    exact ⟨.error ⟨.invalidForm (text "y"), _⟩, ⟨0, rfl⟩, rfl⟩
  obtain ⟨hsingle, hchain⟩ := let_chains_bindings heven (symbol "x") one [symbol "x"] session
    (.error (.invalidForm (text "y"))) later
  exact ⟨heven, hwhole, hsingle.mp hwhole, hchain.mp hwhole⟩

end Form

end FlatLisp
