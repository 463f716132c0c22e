import FlatLisp.Proofs.Footprint
import FlatLisp.Proofs.Termination
import FlatLisp.Proofs.Transcript

/-!
Rounds of a body that knows nothing of the counter. A `repeat` list counts its
rounds from one and sets the counter before each of them; a `loop` list counts
from zero and sets the counter once more than it goes round, for the test that
ends it. A body in which the counter does not occur goes the same way whatever
the counter is, so both are compared with a third run: that of the body written
as many times in a row, without any counting.

The step of the comparison is one round, `Counted.round`; the rounds of both
lists follow by induction.
-/

namespace FlatLisp

def Session.count (session : Session) (i : Nat) : Session :=
  { session with
    environment := session.environment.insert Environment.counter (.integer (.ofNat i)) }

@[simp] theorem Session.count_count (session : Session) (i j : Nat) :
    (session.count i).count j = session.count j := by
  simp only [count, Environment.insert_insert]

theorem Session.lookup_count {name : String} (h : name ≠ Environment.counter) (session : Session)
    (i : Nat) : (session.count i).environment.lookup name = session.environment.lookup name :=
  Environment.lookup_insert_of_ne _ _ h

namespace Evaluation

theorem setCounter_apply (i : Nat) (session : Session) :
    setCounter i session = .ok () (session.count i) := rfl

/-- What the counter was does not matter to what sets it first. -/
theorem setCounter_bind_count {α : Type} (i j : Nat) (f : Unit → Evaluation α)
    (session : Session) :
    (setCounter i >>= f) (session.count j) = (setCounter i >>= f) session := by
  rw [bind_of_ok (setCounter_apply i _), bind_of_ok (setCounter_apply i _), Session.count_count]

theorem commutes_count_lookup {name : String} (h : name ≠ Environment.counter) (i : Nat) :
    Commutes (·.count i) (lookup name) := by
  intro session
  unfold lookup
  rw [Session.lookup_count h]
  cases session.environment.lookup name <;> rfl

theorem commutes_count_assign {name : String} (h : name ≠ Environment.counter) (value : Value)
    (i : Nat) : Commutes (·.count i) (assign name value) := by
  intro session
  simp only [assign, Session.count, mapState]
  rw [Environment.insert_comm _ h.symm]

theorem commutes_count_printLine (text : String) (i : Nat) :
    Commutes (·.count i) (printLine text) := by
  intro session
  simp only [printLine, Session.count]
  cases Output.writeLine text session.output <;> rfl

end Evaluation

namespace Form

open Evaluation

/-- Whether rounds of a body can be counted behind its back: the counter does
not occur in it, and no list in it counts rounds itself. -/
def Uncounted (form : Form) : Prop :=
  ¬ form.HasAtom (.symbol Environment.counter) ∧ ¬ form.HasListHeadedBy "loop" ∧
    ¬ form.HasListHeadedBy "repeat"

instance (form : Form) : Decidable form.Uncounted :=
  inferInstanceAs (Decidable (_ ∧ _ ∧ _))

/-- Binding the counter commutes with every action that depends on a form
without the counter in it: such a form neither looks it up nor binds it. -/
theorem Uncounted.respects_count {form : Form} (h : form.Uncounted) (i : Nat) :
    form.Respects fun _ x _ => Commutes (·.count i) x where
  lookup name hname := by
    refine commutes_count_lookup ?_ i
    rintro rfl
    exact h.1 (hasAtom_of_mem_symbols hname)
  assign name hname value := by
    refine commutes_count_assign ?_ value i
    rintro rfl
    exact h.1 hname.hasAtom
  setCounter hcounts := (hcounts.elim h.2.1 h.2.2).elim
  unfinished hloop := absurd hloop h.2.1

theorem evalBody_commutes_count {body : List Form} (h : ∀ form ∈ body, form.Uncounted)
    (turns i : Nat) : Commutes (·.count i) (evalBody turns body) :=
  evalBody_congr (congruence_commutes fun text => commutes_count_printLine text i)
    (Nat.le_refl turns) body fun form hform => (h form hform).respects_count i

/-- A body keeps the value of a name that it does not bind. -/
theorem lookup_evalBody {body : List Form} {name : String}
    (h : ∀ form ∈ body, ¬ form.MayBind name) {turns : Nat} {session later : Session}
    {last : Option Value} (hend : evalBody turns body session = .ok last later) :
    later.environment.lookup name = session.environment.lookup name := by
  have hkeeps : Keeps (Session.Grows (· ≠ name)) (evalBody turns body) := by
    refine evalBody_congr congruence_keeps (Nat.le_refl turns) body fun form hform => ?_
    refine form.respects_keeps ?_
    rintro other hother rfl
    exact h form hform hother
  have hgrows := hkeeps session
  rw [hend] at hgrows
  exact hgrows.lookup name fun hname => hname rfl

theorem evalBody_append (turns : Nat) (first second : List Form) :
    evalBody turns (first ++ second) =
      (evalBody turns first >>= fun last => evalBody turns second >>= fun later =>
        pure (later.or last)) := by
  induction first with
  | nil => simp [evalBody]
  | cons form rest ih => simp [evalBody, ih]

def times (rounds : Nat) (body : List Form) : List Form :=
  (List.replicate rounds body).flatten

theorem times_succ (rounds : Nat) (body : List Form) :
    times (rounds + 1) body = body ++ times rounds body := by
  rw [times, List.replicate_succ, List.flatten_cons, times]

/-- What counted rounds give, against the same rounds without counting: the
same result and the same session but for the counter, which is at its final
number unless they fail. -/
inductive Counted (final : Nat) (start : Value) :
    EStateM.Result Stop Session (Option Value) → EStateM.Result Stop Session Value → Prop where
  | ok {last : Option Value} {later : Session} :
      Counted final start (.ok last later) (.ok (last.getD start) (later.count final))
  | error {stop : Stop} {later : Session} (i : Nat) :
      Counted final start (.error stop later) (.error stop (later.count i))

section

variable {turns : Nat} {body : List Form}

/-- One round more, in front of others. -/
theorem Counted.round (hbody : ∀ i, Commutes (·.count i) (evalBody turns body))
    {i final rounds : Nat} {start : Value} {session : Session}
    {next : Option Value → Evaluation Value}
    (hnext : ∀ last between, evalBody turns body session = .ok last between →
      Counted final (last.getD start) (evalBody turns (times rounds body) between)
        (next last (between.count i))) :
    Counted final start (evalBody turns (times (rounds + 1) body) session)
      ((evalBody turns body >>= next) (session.count i)) := by
  have hcounted := hbody i session
  rw [times_succ, evalBody_append]
  cases hround : evalBody turns body session with
  | error stop later =>
      rw [hround] at hcounted
      rw [bind_of_error hround, bind_of_error hcounted]
      exact .error i
  | ok last between =>
      rw [hround] at hcounted
      rw [bind_of_ok hround, bind_of_ok hcounted]
      have hrest := hnext last between hround
      cases hplain : evalBody turns (times rounds body) between with
      | error stop later =>
          rw [hplain] at hrest
          rw [bind_of_error hplain]
          generalize next last (between.count i) = outcome at hrest ⊢
          cases hrest with
          | error j => exact .error j
      | ok more later =>
          rw [hplain] at hrest
          rw [bind_of_ok hplain]
          generalize next last (between.count i) = outcome at hrest ⊢
          cases hrest with
          | ok =>
              rw [← Option.getD_or]
              exact .ok

/-- The rounds of a repetition against a body written as often in a row, by
induction on the number of rounds. -/
theorem counted_repeatFrom (hbody : ∀ i, Commutes (·.count i) (evalBody turns body))
    (rounds i : Nat) (start : Value) (session : Session) :
    Counted (i + rounds) start (evalBody turns (times rounds body) session)
      (repeatFrom (evalBody turns body) rounds (i + 1) start (session.count i)) := by
  induction rounds generalizing i start session with
  | zero => exact .ok
  | succ rounds ih =>
      rw [repeatFrom, setCounter_bind_count, bind_of_ok (setCounter_apply _ _)]
      refine Counted.round hbody fun last between _ => ?_
      have hrest := ih (i + 1) (last.getD start) between
      rwa [Nat.add_right_comm i 1 rounds] at hrest

def belowTest (count : Int64) : Form :=
  list [symbol "<", symbol Environment.counter, number (.integer count)]

/-- The test of a counted loop compares the counter with the count and changes
nothing. Up to the count the counter does not overflow. -/
theorem eval_belowTest {session : Session}
    (hless : session.environment.lookup "<" = some (.builtin .less)) {count : Int64} {i : Nat}
    (hi : (i : Int) ≤ count.toInt) :
    (belowTest count).eval turns (session.count i) =
      .ok (.boolean (decide ((i : Int) < count.toInt))) (session.count i) := by
  have hhead : eval turns (symbol "<") (session.count i) =
      .ok (.builtin .less) (session.count i) := by
    change lookup "<" (session.count i) = _
    rw [lookup, Session.lookup_count (by decide), hless]
  have hcounter : eval turns (symbol Environment.counter) (session.count i) =
      .ok (.integer (.ofNat i)) (session.count i) := by
    change lookup Environment.counter (session.count i) = _
    rw [lookup, Session.count, Environment.lookup_insert_self]
  have hvalue : (Int64.ofNat i).toInt = i := by
    have hlimit := count.toInt_lt
    exact Int64.toInt_ofNat_of_lt (by omega)
  have harguments : evalAll turns [symbol Environment.counter, number (.integer count)]
      (session.count i) = .ok [.integer (.ofNat i), .integer count] (session.count i) := by
    rw [evalAll, bind_of_ok hcounter]
    rfl
  have horder : (Number.compare? (.integer (.ofNat i)) (.integer count) == some .lt) =
      decide ((i : Int) < count.toInt) := by
    rw [Number.compare?, hvalue, Bool.eq_iff_iff]
    simp [Int.compare_eq_lt]
  have hlist : evalList turns
      [symbol "<", symbol Environment.counter, number (.integer count)] (session.count i) =
        .ok (.boolean (decide ((i : Int) < count.toInt))) (session.count i) := by
    rw [evalList_call turns (by decide), bind_of_ok hhead, bind_of_ok harguments, ← horder]
    rfl
  change within _ _ _ = _
  rw [within, hlist]

/-- The rounds of a counted loop against a body written as often in a row. There
is one test more than there are rounds, and `<` has to mean the same at each of
them. -/
theorem counted_loopFrom (hbody : ∀ i, Commutes (·.count i) (evalBody turns body))
    (hkeeps : ∀ session last later, evalBody turns body session = .ok last later →
      later.environment.lookup "<" = session.environment.lookup "<")
    {count : Int64} {rounds i : Nat} (hcount : ((i + rounds : Nat) : Int) = count.toInt)
    (start : Value) {session : Session}
    (hless : session.environment.lookup "<" = some (.builtin .less)) :
    Counted (i + rounds) start (evalBody turns (times rounds body) session)
      (loopFrom ((belowTest count).eval turns) (evalBody turns body) (rounds + 1) i start
        session) := by
  induction rounds generalizing i start session with
  | zero =>
      have hend : ¬ (i : Int) < count.toInt := by omega
      rw [loopFrom, bind_of_ok (setCounter_apply _ _),
        bind_of_ok (eval_belowTest hless (by omega)), decide_eq_false hend]
      exact .ok
  | succ rounds ih =>
      have hbelow : (i : Int) < count.toInt := by omega
      rw [loopFrom, bind_of_ok (setCounter_apply _ _),
        bind_of_ok (eval_belowTest hless (by omega)), decide_eq_true hbelow]
      refine Counted.round hbody fun last between hround => ?_
      have hrest := ih (i := i + 1) (by omega) (last.getD start)
        ((hkeeps session last between hround).trans hless)
      rw [Nat.add_right_comm i 1 rounds, loopFrom] at hrest
      rwa [loopFrom, setCounter_bind_count]

end

def repetition (count : Int64) (body : List Form) : Form :=
  list (symbol "repeat" :: number (.integer count) :: body)

def countedLoop (count : Int64) (body : List Form) : Form :=
  list (symbol "loop" :: belowTest count :: body)

section

variable {turns : Nat} {body : List Form} {count : Int64} {session : Session}

/-- A `repeat` list counts its rounds from one on and otherwise does what its
body does, written as often in a row. -/
theorem counted_repetition (turns : Nat) (hbody : ∀ form ∈ body, form.Uncounted)
    (hcount : 1 ≤ count.toInt) :
    Counted count.toInt.toNat .nil (evalBody turns (times count.toInt.toNat body) session)
      (evalList turns (symbol "repeat" :: number (.integer count) :: body) session) := by
  obtain ⟨rounds, hrounds⟩ : ∃ rounds, count.toInt.toNat = rounds + 1 :=
    ⟨count.toInt.toNat - 1, by omega⟩
  have hcounted := counted_repeatFrom (evalBody_commutes_count hbody turns) (rounds + 1) 0 .nil
    session
  rw [repeatFrom, setCounter_bind_count, Nat.zero_add] at hcounted
  rw [evalList_repetition turns rfl, hrounds]
  change Counted (rounds + 1) _ _
    (repeatFrom (evalBody turns body) count.toInt.toNat 1 .nil session)
  rw [hrounds, repeatFrom]
  exact hcounted

/-- A counted loop counts from zero on and tests once more after the last round.
Apart from that it too does what its body does, written as often in a row. -/
theorem counted_countedLoop (hbody : ∀ form ∈ body, form.Uncounted)
    (hname : ∀ form ∈ body, ¬ form.HasLetName "<") (hcount : 1 ≤ count.toInt)
    (hless : session.environment.lookup "<" = some (.builtin .less))
    (hturns : turns = count.toInt.toNat + 1) :
    Counted count.toInt.toNat .nil (evalBody turns (times count.toInt.toNat body) session)
      (evalList turns (symbol "loop" :: belowTest count :: body) session) := by
  have hkeeps : ∀ session last later, evalBody turns body session = .ok last later →
      later.environment.lookup "<" = session.environment.lookup "<" := by
    intro session last later hend
    refine lookup_evalBody ?_ hend
    rintro form hform (hlet | ⟨hcounter, -⟩)
    · exact hname form hform hlet
    · exact absurd hcounter (by decide)
  have hrounds : ((0 + count.toInt.toNat : Nat) : Int) = count.toInt := by omega
  have hcounted := counted_loopFrom (evalBody_commutes_count hbody turns) hkeeps hrounds .nil hless
  rw [Nat.zero_add, ← hturns] at hcounted
  rw [evalList_loop turns rfl]
  exact hcounted

/-- A list with counted rounds ends as the rounds do without counting: with
their last value, or with their failure and itself as one more frame. -/
theorem Counted.ends {elements rounds : List Form} {final : Nat}
    (h : Counted final .nil (evalBody turns rounds session) (evalList turns elements session))
    {result : Except Failure (Option Value)} {between : Session}
    (hplain : evalBody turns rounds session = conclude result between) :
    match result with
    | .ok last => (list elements).Ends session (.ok (last.getD .nil)) (between.count final)
    | .error failure => ∃ i, (list elements).Ends session
        (.error (failure.within (list elements))) (between.count i) := by
  rw [hplain] at h
  generalize houtcome : evalList turns elements session = outcome at h
  cases result with
  | ok last =>
      cases h with
      | ok =>
          have hend : evalList turns elements session =
              conclude (.ok (last.getD .nil)) (between.count final) := houtcome
          exact ⟨turns, within_of_conclude _ hend⟩
  | error failure =>
      cases h with
      | error i =>
          have hend : evalList turns elements session =
              conclude (.error failure) (between.count i) := houtcome
          exact ⟨i, turns, within_of_conclude _ hend⟩

end

/-- Where one form fails so does another one, with the same fault, the same
frames but for the form itself, and the same output. -/
def FailsLike (form other : Form) (session : Session) : Prop :=
  ∀ failure later, form.Ends session (.error failure) later → ∃ frames otherLater,
    failure.frames = frames ++ [form] ∧
      other.Ends session (.error ⟨failure.fault, frames ++ [other]⟩) otherLater ∧
      otherLater.output = later.output

theorem failsLike_of_ends {form other : Form} {session later otherLater : Session}
    {failure : Failure} (h : form.Ends session (.error (failure.within form)) later)
    (hother : other.Ends session (.error (failure.within other)) otherLater)
    (houtput : otherLater.output = later.output) : form.FailsLike other session := by
  intro found foundLater hfound
  obtain ⟨hfailure, rfl⟩ := h.unique hfound
  obtain rfl : failure.within form = found := Except.error.inj hfailure
  exact ⟨failure.frames, otherLater, rfl, hother, houtput⟩

theorem failsLike_of_ok {form : Form} {session later : Session} {value : Value}
    (h : form.Ends session (.ok value) later) (other : Form) : form.FailsLike other session := by
  intro failure failureLater hfailure
  cases (h.unique hfailure).1

/-- `(repeat count body...)` and `(loop (< _ count) body...)` are
interchangeable for an integer from one on and a body that is not concerned
with the counter, if `<` is the builtin and stays so. Either both give a value,
and then the same one in the same session: that of the body written `count`
times in a row, with the counter at `count`. Or both fail, with the same fault,
the same frames but for themselves, and the same output. -/
theorem repetition_interchanges_with_loop {session : Session} {count : Int64} {body : List Form}
    (hless : session.environment.lookup "<" = some (.builtin .less)) (hcount : 1 ≤ count.toInt)
    (hbody : ∀ form ∈ body, form.Uncounted) (hname : ∀ form ∈ body, ¬ form.HasLetName "<") :
    (∀ value later, (repetition count body).Ends session (.ok value) later ↔
        (countedLoop count body).Ends session (.ok value) later) ∧
      (∀ value later, (repetition count body).Ends session (.ok value) later →
        ∃ last between,
          (∀ turns, evalBody turns (times count.toInt.toNat body) session =
            conclude (.ok last) between) ∧
          value = last.getD .nil ∧ (body = [] → value = .nil) ∧
          later.output = between.output ∧
          later.environment =
            between.environment.insert Environment.counter (.integer count)) ∧
      (repetition count body).FailsLike (countedLoop count body) session ∧
      (countedLoop count body).FailsLike (repetition count body) session := by
  have hloops : ∀ form ∈ times count.toInt.toNat body, ¬ form.HasListHeadedBy "loop" := by
    intro form hform
    obtain ⟨written, hwritten, hmember⟩ := List.mem_flatten.mp hform
    rw [List.eq_of_mem_replicate hwritten] at hmember
    exact (hbody form hmember).2.1
  obtain ⟨result, between, hplain⟩ := exists_evalBody hloops session
  have hrepeat := (counted_repetition 0 hbody hcount).ends (hplain _)
  have hloop := (counted_countedLoop hbody hname hcount hless rfl).ends (hplain _)
  cases result with
  | ok last =>
      have hvalue {value : Value} {later : Session}
          (hend : (repetition count body).Ends session (.ok value) later) :
          value = last.getD .nil ∧ later = between.count count.toInt.toNat := by
        obtain ⟨hsame, hlater⟩ := hend.unique hrepeat
        exact ⟨Except.ok.inj hsame, hlater⟩
      refine ⟨fun value later => ⟨fun hend => ?_, fun hend => ?_⟩, fun value later hend => ?_,
        failsLike_of_ok hrepeat _, failsLike_of_ok hloop _⟩
      · obtain ⟨rfl, rfl⟩ := hvalue hend
        exact hloop
      · obtain ⟨hsame, rfl⟩ := hend.unique hloop
        rw [hsame]
        exact hrepeat
      · obtain ⟨rfl, rfl⟩ := hvalue hend
        refine ⟨last, between, hplain, rfl, ?_, rfl, ?_⟩
        · rintro rfl
          have hnone := hplain 0
          rw [times, List.flatten_replicate_nil] at hnone
          change EStateM.Result.ok none session = .ok last between at hnone
          cases hnone
          rfl
        · have hfinal : Int64.ofNat count.toInt.toNat = count := by
            rw [← Int64.ofInt_eq_ofNat, Int.toNat_of_nonneg (by omega), Int64.ofInt_toInt]
          simp only [Session.count, hfinal]
  | error failure =>
      obtain ⟨i, hrepeat⟩ := hrepeat
      obtain ⟨j, hloop⟩ := hloop
      refine ⟨fun value later => ⟨fun hend => ?_, fun hend => ?_⟩, fun value later hend => ?_,
        failsLike_of_ends hrepeat hloop rfl, failsLike_of_ends hloop hrepeat rfl⟩
      · cases (hend.unique hrepeat).1
      · cases (hend.unique hloop).1
      · cases (hend.unique hrepeat).1

/-- A body that makes a text longer and prints it in each round. -/
theorem repetition_interchanges_with_loop_growing :
    let body := [list [symbol "let", list [symbol "x",
      list [symbol "+", symbol "x", text "b"]], list [symbol "print", symbol "x"]]]
    let session : Session :=
      { Session.start {} with environment := Environment.global.insert "x" (.text "a") }
    session.environment.lookup "<" = some (.builtin .less) ∧
      (∀ form ∈ body, form.Uncounted) ∧ (∀ form ∈ body, ¬ form.HasLetName "<") ∧
      (∃ later, (repetition 2 body).Ends session (.ok (.text "abb")) later ∧
        (countedLoop 2 body).Ends session (.ok (.text "abb")) later) ∧
      (repetition 2 body).FailsLike (countedLoop 2 body) session := by
  intro body session
  have hless : session.environment.lookup "<" = some (.builtin .less) := rfl
  have hcount : 1 ≤ (2 : Int64).toInt := by decide
  have hbody : ∀ form ∈ body, form.Uncounted := by decide
  have hname : ∀ form ∈ body, ¬ form.HasLetName "<" := by
    intro form hform hlet
    have habsent : ∀ form ∈ body, ¬ form.HasAtom (.symbol "<") := by decide
    exact habsent form hform hlet.hasAtom
  obtain ⟨later, hends⟩ :
      ∃ later, (repetition 2 body).Ends session (.ok (.text "abb")) later := by
    simp only [body, session]
    exact ⟨_, 0, rfl⟩
  obtain ⟨hsame, -, hfails, -⟩ :=
    repetition_interchanges_with_loop hless hcount hbody hname
  exact ⟨hless, hbody, hname, ⟨later, hends, (hsame _ _).mp hends⟩, hfails⟩

end Form

end FlatLisp
