import FlatLisp.Proofs.Rounds

/-!
Loops written out. The counter lives in the environment like any other symbol,
so the test and the body of a loop may rebind it, and loops inside them do. The
number of the round is kept elsewhere: each round starts by binding the counter
anew. Hence a loop that comes to its end does what its rounds do one after the
other, with the numbers put in, whatever its test and its body are.

One round is `LoopRound` or `RepeatRound`, and `InTurn` puts rounds in a row. A
run of `loopFrom` or `repeatFrom` is taken apart into such a row, and put
together from one, round by round.
-/

namespace FlatLisp

/-- The counter is bound to the very number of the round, as long as that is a
64-bit integer. -/
theorem Session.exists_count_eq {i : Nat} (h : i < 9223372036854775808) :
    ∃ number : Int64, number.toInt = i ∧ ∀ session : Session, session.count i =
      { session with
        environment := session.environment.insert Environment.counter (.integer number) } :=
  ⟨.ofNat i, Int64.toInt_ofNat_of_lt h, fun _ => rfl⟩

theorem Evaluation.bind_eq_ok_iff {α β : Type} {x : Evaluation α} {f : α → Evaluation β}
    {session later : Session} {result : β} :
    (x >>= f) session = .ok result later ↔
      ∃ value between, x session = .ok value between ∧ f value between = .ok result later := by
  constructor
  · intro h
    cases hfirst : x session with
    | error stop between =>
        rw [bind_of_error hfirst] at h
        cases h
    | ok value between =>
        rw [bind_of_ok hfirst] at h
        exact ⟨value, between, rfl, h⟩
  · rintro ⟨value, between, hfirst, hnext⟩
    rw [bind_of_ok hfirst, hnext]

namespace Form

open Evaluation

theorem Ends.eventually {form : Form} {session later : Session} {value : Value}
    (h : form.Ends session (.ok value) later) :
    ∃ least, ∀ turns, least ≤ turns → form.eval turns session = .ok value later := by
  obtain ⟨least, hleast⟩ := h
  exact ⟨least, fun turns hturns => eval_of_le hturns hleast⟩

/-- Forms that are evaluated in order, each in the session that the one before
it leaves, and that all give values. -/
inductive GiveInTurn : List Form → Session → List Value → Session → Prop where
  | nil {session : Session} : GiveInTurn [] session [] session
  | cons {form : Form} {rest : List Form} {session between later : Session} {value : Value}
      {values : List Value} (first : form.Ends session (.ok value) between)
      (others : GiveInTurn rest between values later) :
      GiveInTurn (form :: rest) session (value :: values) later

section

variable {forms : List Form} {session later : Session} {values : List Value}

theorem GiveInTurn.length_eq (h : GiveInTurn forms session values later) :
    values.length = forms.length := by
  induction h with
  | nil => rfl
  | cons _ _ ih => rw [List.length_cons, List.length_cons, ih]

/-- A body that ends with a value has evaluated its forms in turn. -/
theorem exists_giveInTurn {turns : Nat} {last : Option Value}
    (h : evalBody turns forms session = .ok last later) :
    ∃ values, GiveInTurn forms session values later ∧ last = values.getLast? := by
  induction forms generalizing session last with
  | nil =>
      cases h
      exact ⟨[], .nil, rfl⟩
  | cons form rest ih =>
      rw [evalBody] at h
      obtain ⟨value, between, hfirst, hrest⟩ := bind_eq_ok_iff.mp h
      obtain ⟨more, _, hmore, hlast⟩ := bind_eq_ok_iff.mp hrest
      cases hlast
      obtain ⟨values, hvalues, rfl⟩ := ih hmore
      exact ⟨value :: values, .cons ⟨turns, hfirst⟩ hvalues, List.getLast?_cons.symm⟩

/-- Forms that are evaluated in turn make a body that ends, from some bound on.
-/
theorem GiveInTurn.eventually (h : GiveInTurn forms session values later) :
    ∃ least, ∀ turns, least ≤ turns →
      evalBody turns forms session = .ok values.getLast? later := by
  induction h with
  | nil => exact ⟨0, fun _ _ => rfl⟩
  | cons first _ ih =>
      obtain ⟨leastFirst, hfirst⟩ := first.eventually
      obtain ⟨leastRest, hrest⟩ := ih
      refine ⟨max leastFirst leastRest, fun turns hturns => ?_⟩
      rw [evalBody, bind_of_ok (hfirst turns (by omega)), bind_of_ok (hrest turns (by omega)),
        List.getLast?_cons]
      rfl

end

/-- A round of a loop: the counter is bound to the number of the round, the test
is truthy, and the body is evaluated. -/
def LoopRound (test : Form) (body : List Form) (i : Nat) (session : Session)
    (values : List Value) (later : Session) : Prop :=
  ∃ answer tested, test.Ends (session.count i) (.ok answer) tested ∧ answer.isTruthy = true ∧
    GiveInTurn body tested values later

def RepeatRound (body : List Form) (i : Nat) (session : Session) (values : List Value)
    (later : Session) : Prop :=
  GiveInTurn body (session.count i) values later

/-- Rounds in a row, numbered from `i` on. Each starts in the session that the
one before it leaves, and gives a list of values. -/
inductive InTurn (round : Nat → Session → List Value → Session → Prop) :
    Nat → Session → List (List Value) → Session → Prop where
  | none {i : Nat} {session : Session} : InTurn round i session [] session
  | more {i : Nat} {session between later : Session} {values : List Value}
      {rounds : List (List Value)} (first : round i session values between)
      (others : InTurn round (i + 1) between rounds later) :
      InTurn round i session (values :: rounds) later

/-- The last value of the last round; what was there before if there is none. -/
def resultOf (start : Value) (rounds : List (List Value)) : Value :=
  ((rounds.getLast?.getD []).getLast?).getD start

/-- A result is replaced in each round or in none, since all rounds have equally
many values. -/
theorem resultOf_cons {start : Value} {values : List Value} {rounds : List (List Value)}
    {size : Nat} (h : ∀ round ∈ values :: rounds, round.length = size) :
    resultOf start (values :: rounds) = resultOf (values.getLast?.getD start) rounds := by
  unfold resultOf
  rw [List.getLast?_cons, Option.getD_some]
  cases hlast : rounds.getLast? with
  | none => rfl
  | some last =>
      have hvalues : values.length = size := h values List.mem_cons_self
      have hsize : last.length = size :=
        h last (List.mem_cons_of_mem _ (List.mem_of_getLast? hlast))
      rw [Option.getD_some, Option.getD_some]
      cases last with
      | nil =>
          obtain rfl : values = [] := List.length_eq_zero_iff.mp (hvalues.trans hsize.symm)
          rfl
      | cons value rest => rw [List.getLast?_cons, Option.getD_some, Option.getD_some]

section

variable {test : Form} {body : List Form} {round : Nat → Session → List Value → Session → Prop}
  {i : Nat} {session later : Session} {rounds : List (List Value)}

theorem InTurn.length_eq {size : Nat} (h : InTurn round i session rounds later)
    (hround : ∀ i session values later, round i session values later → values.length = size) :
    ∀ values ∈ rounds, values.length = size := by
  induction h with
  | none => exact List.forall_mem_nil _
  | more first _ ih => exact List.forall_mem_cons.mpr ⟨hround _ _ _ _ first, ih⟩

theorem LoopRound.length_eq {values : List Value} (h : LoopRound test body i session values later) :
    values.length = body.length := by
  obtain ⟨_, _, -, -, hbody⟩ := h
  exact hbody.length_eq

/-- A loop that ends has gone through rounds in turn and then met a test that is
not truthy. The induction follows the rounds that were run. -/
theorem exists_inTurn_of_loopFrom {turns bound : Nat} {start value : Value}
    (h : loopFrom (test.eval turns) (evalBody turns body) bound i start session =
      .ok value later) :
    ∃ rounds between answer, InTurn (LoopRound test body) i session rounds between ∧
      test.Ends (between.count (i + rounds.length)) (.ok answer) later ∧
      answer.isTruthy = false ∧ value = resultOf start rounds := by
  induction bound generalizing i start session with
  | zero => cases h
  | succ bound ih =>
      rw [loopFrom, bind_of_ok (setCounter_apply _ _)] at h
      obtain ⟨answer, tested, htest, hnext⟩ := bind_eq_ok_iff.mp h
      by_cases htruthy : answer.isTruthy = true
      · rw [if_pos htruthy] at hnext
        obtain ⟨last, between, hbody, hrest⟩ := bind_eq_ok_iff.mp hnext
        obtain ⟨values, hvalues, rfl⟩ := exists_giveInTurn hbody
        obtain ⟨rounds, final, falsy, hrounds, hend, hfalsy, rfl⟩ := ih hrest
        have hall : InTurn (LoopRound test body) i session (values :: rounds) final :=
          .more ⟨answer, tested, ⟨turns, htest⟩, htruthy, hvalues⟩ hrounds
        refine ⟨values :: rounds, final, falsy, hall, ?_, hfalsy, ?_⟩
        · rwa [List.length_cons, ← Nat.add_assoc, Nat.add_right_comm]
        · exact (resultOf_cons (hall.length_eq fun _ _ _ _ => LoopRound.length_eq)).symm
      · rw [if_neg htruthy] at hnext
        cases hnext
        exact ⟨[], session, answer, .none, ⟨turns, htest⟩, by simpa using htruthy, rfl⟩

/-- Rounds in turn with such a test behind them make a loop that ends. Each
evaluation in them has a bound of its own, and the greatest of these will do. -/
theorem InTurn.loopFrom_eventually {between : Session} {answer : Value}
    (h : InTurn (LoopRound test body) i session rounds between)
    (hend : test.Ends (between.count (i + rounds.length)) (.ok answer) later)
    (hfalsy : answer.isTruthy = false) (start : Value) :
    ∃ least, ∀ turns, least ≤ turns → ∀ bound, rounds.length < bound →
      loopFrom (test.eval turns) (evalBody turns body) bound i start session =
        .ok (resultOf start rounds) later := by
  induction h generalizing start with
  | none =>
      obtain ⟨least, htest⟩ := hend.eventually
      refine ⟨least, fun turns hturns bound hbound => ?_⟩
      obtain ⟨bound, rfl⟩ : ∃ k, bound = k + 1 := ⟨bound - 1, by omega⟩
      rw [loopFrom, bind_of_ok (setCounter_apply _ _)]
      have hlast := htest turns hturns
      rw [List.length_nil, Nat.add_zero] at hlast
      rw [bind_of_ok hlast, if_neg (by simp [hfalsy])]
      rfl
  | @more i session next between values rounds first others ih =>
      have hsizes := (InTurn.more first others).length_eq fun _ _ _ _ => LoopRound.length_eq
      obtain ⟨truthy, tested, htest, htruthy, hbody⟩ := first
      rw [List.length_cons, ← Nat.add_assoc, Nat.add_right_comm] at hend
      obtain ⟨leastRest, hrest⟩ := ih hend (values.getLast?.getD start)
      obtain ⟨leastTest, htest⟩ := htest.eventually
      obtain ⟨leastBody, hbody⟩ := hbody.eventually
      refine ⟨max leastTest (max leastBody leastRest), fun turns hturns bound hbound => ?_⟩
      rw [List.length_cons] at hbound
      obtain ⟨bound, rfl⟩ : ∃ k, bound = k + 1 := ⟨bound - 1, by omega⟩
      rw [loopFrom, bind_of_ok (setCounter_apply _ _), bind_of_ok (htest turns (by omega)),
        if_pos htruthy, bind_of_ok (hbody turns (by omega)),
        hrest turns (by omega) bound (by omega), resultOf_cons hsizes]

/-- A repetition that ends has gone through as many rounds as were asked for. -/
theorem exists_inTurn_of_repeatFrom {turns count : Nat} {start value : Value}
    (h : repeatFrom (evalBody turns body) count i start session = .ok value later) :
    ∃ rounds, InTurn (RepeatRound body) i session rounds later ∧ rounds.length = count ∧
      value = resultOf start rounds := by
  induction count generalizing i start session with
  | zero =>
      cases h
      exact ⟨[], .none, rfl, rfl⟩
  | succ count ih =>
      rw [repeatFrom, bind_of_ok (setCounter_apply _ _)] at h
      obtain ⟨last, between, hbody, hrest⟩ := bind_eq_ok_iff.mp h
      obtain ⟨values, hvalues, rfl⟩ := exists_giveInTurn hbody
      obtain ⟨rounds, hrounds, rfl, rfl⟩ := ih hrest
      have hall : InTurn (RepeatRound body) i session (values :: rounds) later :=
        .more hvalues hrounds
      refine ⟨values :: rounds, hall, rfl, ?_⟩
      exact (resultOf_cons (hall.length_eq fun _ _ _ _ => GiveInTurn.length_eq)).symm

theorem InTurn.repeatFrom_eventually (h : InTurn (RepeatRound body) i session rounds later)
    (start : Value) :
    ∃ least, ∀ turns, least ≤ turns →
      repeatFrom (evalBody turns body) rounds.length i start session =
        .ok (resultOf start rounds) later := by
  induction h generalizing start with
  | none => exact ⟨0, fun _ _ => rfl⟩
  | @more i session between later values rounds first others ih =>
      have hsizes := (InTurn.more first others).length_eq fun _ _ _ _ => GiveInTurn.length_eq
      obtain ⟨leastRest, hrest⟩ := ih (values.getLast?.getD start)
      obtain ⟨leastBody, hbody⟩ := GiveInTurn.eventually first
      refine ⟨max leastBody leastRest, fun turns hturns => ?_⟩
      rw [List.length_cons, repeatFrom, bind_of_ok (setCounter_apply _ _),
        bind_of_ok (hbody turns (by omega)), hrest turns (by omega), resultOf_cons hsizes]

theorem ends_list_ok_iff {elements : List Form} {value : Value} :
    (list elements).Ends session (.ok value) later ↔
      ∃ turns, evalList turns elements session = .ok value later := by
  constructor
  · rintro ⟨turns, hend⟩
    obtain ⟨inner, hinner, hvalue⟩ := within_eq_conclude hend
    cases inner with
    | error failure => cases hvalue
    | ok found =>
        cases hvalue
        exact ⟨turns, hinner⟩
  · rintro ⟨turns, hend⟩
    have hend : evalList turns elements session = conclude (.ok value) later := hend
    exact ⟨turns, within_of_conclude (list elements) hend⟩

/-- A `loop` list ends with a value just if there are rounds in turn, with a
test behind them that is not truthy. -/
theorem loop_ends_ok_iff {value : Value} :
    (list (symbol "loop" :: test :: body)).Ends session (.ok value) later ↔
      ∃ rounds between answer, InTurn (LoopRound test body) 0 session rounds between ∧
        test.Ends (between.count rounds.length) (.ok answer) later ∧
        answer.isTruthy = false ∧ value = resultOf .nil rounds := by
  rw [ends_list_ok_iff]
  constructor
  · rintro ⟨turns, hend⟩
    rw [evalList_loop turns rfl] at hend
    simpa only [Nat.zero_add] using exists_inTurn_of_loopFrom hend
  · rintro ⟨rounds, between, answer, hrounds, hend, hfalsy, rfl⟩
    rw [← Nat.zero_add rounds.length] at hend
    obtain ⟨least, hloop⟩ := hrounds.loopFrom_eventually hend hfalsy .nil
    refine ⟨max least (rounds.length + 1), ?_⟩
    rw [evalList_loop _ rfl]
    exact hloop _ (by omega) _ (by omega)

theorem repeatCount_eq_ok_iff {value : Value} {count : Nat} :
    repeatCount value session = .ok count later ↔
      ∃ number : Int64, value = .integer number ∧ count = number.toInt.toNat ∧ later = session := by
  constructor
  · intro h
    unfold repeatCount at h
    split at h
    next number =>
      cases h
      exact ⟨number, rfl, rfl, rfl⟩
    next => cases h
  · rintro ⟨number, rfl, rfl, rfl⟩
    rfl

/-- A `repeat` list ends with a value just if its count does, which is evaluated
only once, and as many rounds follow in turn. -/
theorem repeat_ends_ok_iff {count : Form} {value : Value} :
    (list (symbol "repeat" :: count :: body)).Ends session (.ok value) later ↔
      ∃ (number : Int64) (counted : Session) (rounds : List (List Value)),
        count.Ends session (.ok (.integer number)) counted ∧
        InTurn (RepeatRound body) 1 counted rounds later ∧
        rounds.length = number.toInt.toNat ∧ value = resultOf .nil rounds := by
  rw [ends_list_ok_iff]
  constructor
  · rintro ⟨turns, hend⟩
    rw [evalList_repetition turns rfl] at hend
    obtain ⟨given, counted, hcount, hend⟩ := bind_eq_ok_iff.mp hend
    obtain ⟨_, _, hnumber, hend⟩ := bind_eq_ok_iff.mp hend
    obtain ⟨number, rfl, rfl, rfl⟩ := repeatCount_eq_ok_iff.mp hnumber
    obtain ⟨rounds, hrounds, hlength, hvalue⟩ := exists_inTurn_of_repeatFrom hend
    exact ⟨number, _, rounds, ⟨turns, hcount⟩, hrounds, hlength, hvalue⟩
  · rintro ⟨number, counted, rounds, hcount, hrounds, hlength, rfl⟩
    obtain ⟨leastCount, hcount⟩ := hcount.eventually
    obtain ⟨leastRounds, hrepeat⟩ := hrounds.repeatFrom_eventually .nil
    refine ⟨max leastCount leastRounds, ?_⟩
    have hnumber : repeatCount (.integer number) counted = .ok rounds.length counted :=
      repeatCount_eq_ok_iff.mpr ⟨number, rfl, hlength, rfl⟩
    rw [evalList_repetition _ rfl]
    exact bind_eq_ok_iff.mpr ⟨_, _, hcount _ (by omega), bind_eq_ok_iff.mpr
      ⟨_, _, hnumber, hrepeat _ (by omega)⟩⟩

end

/-- Each round sees its own number in the counter, whatever test, body or count
do to the counter. A loop ends with a value just if rounds from zero on, each
with the counter at its number and a truthy test, lead to one more test that is
falsy, with the counter at the number of rounds. A repetition ends with a value
just if its count gives an integer and as many rounds, from one on, can be
made; there are none if the integer is not positive. The session at the end is
the one that these rounds leave, and the value is the last one of the last
round, or nil without rounds or without a body. -/
theorem rounds_see_their_numbers (test count : Form) (body : List Form) (session : Session)
    (value : Value) (later : Session) :
    ((list (symbol "loop" :: test :: body)).Ends session (.ok value) later ↔
      ∃ rounds between answer, InTurn (LoopRound test body) 0 session rounds between ∧
        test.Ends (between.count rounds.length) (.ok answer) later ∧
        answer.isTruthy = false ∧ value = resultOf .nil rounds) ∧
    ((list (symbol "repeat" :: count :: body)).Ends session (.ok value) later ↔
      ∃ (number : Int64) (counted : Session) (rounds : List (List Value)),
        count.Ends session (.ok (.integer number)) counted ∧
        InTurn (RepeatRound body) 1 counted rounds later ∧
        rounds.length = number.toInt.toNat ∧ value = resultOf .nil rounds) ∧
    ∀ i < 9223372036854775808, ∃ number : Int64, number.toInt = (i : Nat) ∧
      ∀ start : Session, start.count i =
        { start with
          environment := start.environment.insert Environment.counter (.integer number) } :=
  ⟨loop_ends_ok_iff, repeat_ends_ok_iff, fun _ => Session.exists_count_eq⟩

/-- A loop whose body repeats something and then rebinds the counter, and a
repetition whose count rebinds it. -/
theorem rounds_see_their_numbers_rebound :
    let rebind := fun value : Int64 =>
      list [symbol "let", list [symbol "_", number (.integer value)], symbol "_"]
    let test := list [symbol "<", symbol "_", number (.integer 2)]
    let body := [list [symbol "repeat", number (.integer 3), symbol "_"], rebind 100]
    let session := Session.start {}
    (∃ later rounds between answer,
      (list (symbol "loop" :: test :: body)).Ends session (.ok (.integer 100)) later ∧
        InTurn (LoopRound test body) 0 session rounds between ∧
        test.Ends (between.count rounds.length) (.ok answer) later ∧
        answer.isTruthy = false ∧ .integer 100 = resultOf .nil rounds) ∧
    ∃ later number counted rounds,
      (list (symbol "repeat" :: rebind 2 :: body)).Ends session (.ok (.integer 100)) later ∧
        (rebind 2).Ends session (.ok (.integer number)) counted ∧
        InTurn (RepeatRound body) 1 counted rounds later ∧
        rounds.length = number.toInt.toNat ∧ .integer 100 = resultOf .nil rounds := by
  intro rebind test body session
  obtain ⟨loopLater, hloop⟩ :
      ∃ later, (list (symbol "loop" :: test :: body)).Ends session (.ok (.integer 100)) later := by
    simp only [rebind, test, body, session]
    exact ⟨_, 3, rfl⟩
  obtain ⟨repeatLater, hrepeat⟩ : ∃ later,
      (list (symbol "repeat" :: rebind 2 :: body)).Ends session (.ok (.integer 100)) later := by
    simp only [rebind, body, session]
    exact ⟨_, 0, rfl⟩
  obtain ⟨rounds, between, answer, hrounds⟩ :=
    (rounds_see_their_numbers test (rebind 2) body session _ loopLater).1.mp hloop
  obtain ⟨number, counted, repeated, hrepeated⟩ :=
    (rounds_see_their_numbers test (rebind 2) body session _ repeatLater).2.1.mp hrepeat
  exact ⟨⟨_, rounds, between, answer, hloop, hrounds⟩,
    ⟨_, number, counted, repeated, hrepeat, hrepeated⟩⟩

end Form

end FlatLisp
