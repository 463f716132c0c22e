import FlatLisp.Proofs.Footprint

/-!
Where builtins come from. There is no literal for a builtin and no builtin
gives one, so an evaluation can only hand on those that are bound when it
starts: as its result, in the failure it ends with, or under another name. A
session without `print` therefore never prints again, whatever it is asked.

The invariant is that all builtins in sight are among some that are owned; an
action keeps it, and is silent unless `print` is owned.
-/

namespace FlatLisp

/-- Whether a value is no builtin but one of those that are owned. -/
def Value.Permitted (owned : Builtin → Prop) (value : Value) : Prop :=
  ∀ builtin, value = .builtin builtin → owned builtin

namespace Session

def Holds (session : Session) (builtin : Builtin) : Prop :=
  ∃ name, session.environment.lookup name = some (.builtin builtin)

def Confined (owned : Builtin → Prop) (session : Session) : Prop :=
  ∀ builtin, session.Holds builtin → owned builtin

variable {owned : Builtin → Prop}

theorem Confined.lookup {session : Session} (h : session.Confined owned) {name : String}
    {value : Value} (hvalue : session.environment.lookup name = some value) :
    value.Permitted owned := by
  rintro builtin rfl
  exact h builtin ⟨name, hvalue⟩

theorem Confined.insert {session : Session} (h : session.Confined owned) (name : String)
    {value : Value} (hvalue : value.Permitted owned) :
    Confined owned { session with environment := session.environment.insert name value } := by
  rintro builtin ⟨other, hother⟩
  rcases Environment.lookup_insert_cases hother with ⟨-, hbuiltin⟩ | hother
  · exact hvalue builtin hbuiltin.symm
  · exact h builtin ⟨other, hother⟩

/-- What a session may become: no builtin appears in it, and without `print`
nothing is printed. -/
structure Retains (owned : Builtin → Prop) (session later : Session) : Prop where
  confined : later.Confined owned
  silent : ¬ owned .print → later.output = session.output

theorem Confined.retains {session : Session} (h : session.Confined owned) :
    Retains owned session session :=
  ⟨h, fun _ => rfl⟩

theorem Retains.trans {first second third : Session} (h : Retains owned first second)
    (hnext : Retains owned second third) : Retains owned first third := by
  refine ⟨hnext.confined, fun hprint => ?_⟩
  rw [hnext.silent hprint, h.silent hprint]

end Session

/-- What a builtin that only computes may give: no builtin, and no complaint
about anything but its arguments. -/
inductive Builtin.Plain (arguments : List Value) : Except Fault Value → Prop where
  | ok {value : Value} : (∀ builtin, value ≠ .builtin builtin) → Plain arguments (.ok value)
  | error {fault : Fault} : (∀ value, fault.value? = some value → value ∈ arguments) →
      Plain arguments (.error fault)

theorem Value.asNumber_eq_error {value : Value} {fault : Fault}
    (h : value.asNumber = .error fault) : fault.value? = some value := by
  unfold asNumber at h
  split at h
  · cases h
  · cases h
    rfl

namespace Builtin

/-- If a step of arithmetic complains about a value, then about its argument: an
operation that has no result names none. -/
theorem combine_eq_error {op : Number → Number → Except ArithmeticFault Number} {total : Number}
    {argument value : Value} {fault : Fault} (h : combine op total argument = .error fault)
    (hvalue : fault.value? = some value) : value = argument := by
  unfold combine at h
  cases hnumber : argument.asNumber with
  | error found =>
      rw [hnumber] at h
      obtain rfl : found = fault := Except.error.inj h
      rw [Value.asNumber_eq_error hnumber] at hvalue
      exact (Option.some.inj hvalue).symm
  | ok number =>
      rw [hnumber] at h
      change (op total number).mapError Fault.arithmetic = _ at h
      cases hop : op total number with
      | ok result =>
          rw [hop] at h
          cases h
      | error found =>
          rw [hop] at h
          cases h
          cases hvalue

/-- A fold over the arguments blames one of them or none. -/
theorem foldlM_combine_eq_error {op : Number → Number → Except ArithmeticFault Number}
    {arguments : List Value} {total : Number} {fault : Fault} {value : Value}
    (h : arguments.foldlM (combine op) total = .error fault)
    (hvalue : fault.value? = some value) : value ∈ arguments := by
  induction arguments generalizing total with
  | nil => cases h
  | cons argument rest ih =>
      rw [List.foldlM_cons] at h
      cases hstep : combine op total argument with
      | ok next =>
          rw [hstep] at h
          exact List.mem_cons_of_mem _ (ih h)
      | error found =>
          rw [hstep] at h
          obtain rfl : found = fault := Except.error.inj h
          rw [combine_eq_error hstep hvalue]
          exact List.mem_cons_self

/-- Arithmetic gives numbers and complains about its arguments only. -/
theorem plain_arithmetic (op : Number → Number → Except ArithmeticFault Number)
    (arguments : List Value) : Plain arguments (arithmetic op arguments) := by
  cases arguments with
  | nil => exact .error nofun
  | cons first rest =>
      simp only [arithmetic]
      cases hfirst : first.asNumber with
      | error found =>
          refine .error fun value hvalue => ?_
          rw [Value.asNumber_eq_error hfirst] at hvalue
          rw [Option.some.inj hvalue]
          exact List.mem_cons_self
      | ok start =>
          change Plain _ (rest.foldlM (combine op) start >>= fun total => pure (.number total))
          cases hfold : rest.foldlM (combine op) start with
          | error found =>
              refine .error fun value hvalue => ?_
              exact List.mem_cons_of_mem _ (foldlM_combine_eq_error hfold hvalue)
          | ok total => exact .ok nofun

theorem plain_sum (arguments : List Value) : Plain arguments (sum arguments) := by
  unfold sum
  split
  · exact .ok nofun
  · exact plain_arithmetic _ _

/-- Comparisons give truth values and complain about their arguments only. -/
theorem plain_ordered (order : Ordering) (arguments : List Value) :
    Plain arguments (ordered order arguments) := by
  unfold ordered
  split
  · exact .ok nofun
  · exact .ok nofun
  next a b _ _ =>
    refine .error fun value hvalue => ?_
    obtain rfl : (if a.isComparable then b else a) = value := Option.some.inj hvalue
    split
    · simp
    · simp
  · exact .error nofun

end Builtin

namespace Evaluation

open Session (Confined Retains)

variable {owned : Builtin → Prop}

/-- An outcome in which no builtin comes up that is not owned, be it as part of
what was given, in the failure or in the session. -/
inductive Keep (owned : Builtin → Prop) {α : Type} (held : α → List Value) (session : Session) :
    EStateM.Result Stop Session α → Prop where
  | ok {result : α} {later : Session} (retains : Retains owned session later)
      (values : ∀ value ∈ held result, value.Permitted owned) : Keep owned held session
        (.ok result later)
  | failed {failure : Failure} {later : Session} (retains : Retains owned session later)
      (values : ∀ value, failure.fault.value? = some value → value.Permitted owned) :
      Keep owned held session (.error (.failed failure) later)
  | unfinished {later : Session} (retains : Retains owned session later) :
      Keep owned held session (.error .unfinished later)

def Confines (owned : Builtin → Prop) : Relation := fun _ held x _ =>
  ∀ session, session.Confined owned → Keep owned held session (x session)

theorem Keep.retains {α : Type} {held : α → List Value} {session : Session}
    {outcome : EStateM.Result Stop Session α} (h : Keep owned held session outcome) :
    Retains owned session (stateOf outcome) := by
  cases h with
  | ok hretains _ => exact hretains
  | failed hretains _ => exact hretains
  | unfinished hretains => exact hretains

theorem Keep.after {α : Type} {held : α → List Value} {session between : Session}
    {outcome : EStateM.Result Stop Session α} (hbetween : Retains owned session between)
    (h : Keep owned held between outcome) : Keep owned held session outcome := by
  cases h with
  | ok hretains hvalues => exact .ok (hbetween.trans hretains) hvalues
  | failed hretains hvalues => exact .failed (hbetween.trans hretains) hvalues
  | unfinished hretains => exact .unfinished (hbetween.trans hretains)

/-- Two actions in a row keep to the builtins that are owned. What the first one
gives is permitted, and the session that it leaves is confined, so the second
one can be applied to both. -/
theorem confines_bind {α β : Type} {held : α → List Value} {heldNext : β → List Value}
    {x y : Evaluation α} {f g : α → Evaluation β} (hx : Confines owned held x y)
    (hf : ∀ result, (∀ value ∈ held result, value.Permitted owned) →
      Confines owned heldNext (f result) (g result)) :
    Confines owned heldNext (x >>= f) (y >>= g) := by
  intro session hsession
  have hfirst := hx session hsession
  cases hend : x session with
  | ok result between =>
      rw [hend] at hfirst
      rw [bind_of_ok hend]
      cases hfirst with
      | ok hretains hvalues =>
          exact (hf result hvalues between hretains.confined).after hretains
  | error stop between =>
      rw [hend] at hfirst
      rw [bind_of_error hend]
      cases hfirst with
      | failed hretains hvalues => exact .failed hretains hvalues
      | unfinished hretains => exact .unfinished hretains

theorem confines_within {α : Type} {held : α → List Value} (form : Form) {x y : Evaluation α}
    (hx : Confines owned held x y) : Confines owned held (within form x) (within form y) := by
  intro session hsession
  have hinner := hx session hsession
  unfold within
  cases hend : x session with
  | ok result later =>
      rw [hend] at hinner
      exact hinner
  | error stop later =>
      rw [hend] at hinner
      cases hinner with
      | failed hretains hvalues => exact .failed hretains hvalues
      | unfinished hretains => exact .unfinished hretains

/-- A result that only computes holds no builtin, and if it is a fault, then the
value in it was given. -/
theorem confines_ofExcept {arguments : List Value} {result : Except Fault Value}
    (h : Builtin.Plain arguments result)
    (harguments : ∀ argument ∈ arguments, argument.Permitted owned) :
    Confines owned List.singleton (ofExcept result) (ofExcept result) := by
  intro session hsession
  cases h with
  | ok hvalue =>
      refine .ok hsession.retains fun value hmember => ?_
      rw [List.mem_singleton.mp hmember]
      intro builtin hbuiltin
      exact absurd hbuiltin (hvalue builtin)
  | error hvalue =>
      exact .failed hsession.retains fun value hnamed => harguments value (hvalue value hnamed)

theorem confines_printLine (hprint : owned .print) (text : String) :
    Confines owned (fun _ => []) (printLine text) (printLine text) := by
  intro session hsession
  unfold printLine
  cases Output.writeLine text session.output with
  | ok _ output => exact .ok ⟨hsession, fun hnone => absurd hprint hnone⟩ nofun
  | error message output => exact .failed ⟨hsession, fun hnone => absurd hprint hnone⟩ nofun

/-- A call brings up nothing but what its arguments bring, and it is printing
that takes `print`. -/
theorem confines_call {value : Value} {arguments : List Value} (hvalue : value.Permitted owned)
    (harguments : ∀ argument ∈ arguments, argument.Permitted owned) :
    Confines owned List.singleton (call value arguments) (call value arguments) := by
  cases value with
  | builtin procedure =>
      cases procedure with
      | add => exact confines_ofExcept (Builtin.plain_sum _) harguments
      | sub => exact confines_ofExcept (Builtin.plain_arithmetic _ _) harguments
      | mul => exact confines_ofExcept (Builtin.plain_arithmetic _ _) harguments
      | div => exact confines_ofExcept (Builtin.plain_arithmetic _ _) harguments
      | less => exact confines_ofExcept (Builtin.plain_ordered _ _) harguments
      | greater => exact confines_ofExcept (Builtin.plain_ordered _ _) harguments
      | print =>
          refine confines_bind (confines_printLine (hvalue .print rfl) _) fun _ _ => ?_
          intro session hsession
          exact .ok hsession.retains (List.forall_mem_singleton.mpr nofun)
  | _ =>
      intro session hsession
      refine .failed hsession.retains fun other hother => ?_
      rw [← Option.some.inj hother]
      exact hvalue

theorem tracks_confines : Tracks (Value.Permitted owned) (Confines owned) where
  number _ := nofun
  nil := nofun
  pure hresult := fun _ hsession => .ok hsession.retains hresult
  fail hfault := fun _ hsession => .failed hsession.retains hfault
  bind := confines_bind
  within form _ _ := confines_within form
  call := confines_call

end Evaluation

namespace Form

open Evaluation (Confines)

/-- Of the actions that depend on a form only a look-up can bring up a builtin,
and that one was bound. -/
theorem tracked_confines (form : Form) (owned : Builtin → Prop) :
    form.Tracked (Value.Permitted owned) (Confines owned) where
  text _ _ := nofun
  lookup name _ := by
    intro session hsession
    unfold Evaluation.lookup
    cases hvalue : session.environment.lookup name with
    | none => exact .failed hsession.retains nofun
    | some value =>
        exact .ok hsession.retains (List.forall_mem_singleton.mpr (hsession.lookup hvalue))
  assign name _ _ hvalue := fun _ hsession => .ok ⟨hsession.insert name hvalue, fun _ => rfl⟩ nofun
  setCounter _ _ := fun _ hsession => .ok ⟨hsession.insert _ nofun, fun _ => rfl⟩ nofun
  unfinished _ _ _ _ := fun _ hsession => .unfinished hsession.retains

theorem eval_confines (form : Form) (owned : Builtin → Prop) (turns : Nat) :
    Confines owned List.singleton (form.eval turns) (form.eval turns) :=
  eval_tracks Evaluation.tracks_confines (Nat.le_refl turns) form
    (form.tracked_confines owned)

end Form

namespace Program

open Evaluation (Confines)

theorem run_confines (owned : Builtin → Prop) (turns : Nat) (source : String) :
    Confines owned id (run turns source) (run turns source) :=
  run_tracks Evaluation.tracks_confines (Nat.le_refl turns) fun _ _ form _ =>
    form.tracked_confines owned

theorem evalFirst_confines (owned : Builtin → Prop) (turns : Nat) (source : String) :
    Confines owned Option.toList (evalFirst turns source) (evalFirst turns source) :=
  evalFirst_tracks Evaluation.tracks_confines (Nat.le_refl turns) fun form _ _ =>
    form.tracked_confines owned

end Program

namespace Session

inductive Command where
  | eval (form : Form)
  | evalFirst (source : String)
  | run (source : String)

/-- The session after a command, or as it is when the command is cut off
because a loop takes too many turns. -/
def perform (turns : Nat) (session : Session) : Command → Session
  | .eval form => stateOf (form.eval turns session)
  | .evalFirst source => stateOf (Program.evalFirst turns source session)
  | .run source => stateOf (Program.run turns source session)

def performAll (session : Session) (commands : List (Nat × Command)) : Session :=
  commands.foldl (fun session (turns, command) => session.perform turns command) session

variable {owned : Builtin → Prop}

theorem Confined.retains_perform {session : Session} (h : session.Confined owned) (turns : Nat)
    (command : Command) : Retains owned session (session.perform turns command) := by
  cases command with
  | eval form => exact (form.eval_confines owned turns session h).retains
  | evalFirst source => exact (Program.evalFirst_confines owned turns source session h).retains
  | run source => exact (Program.run_confines owned turns source session h).retains

theorem Confined.retains_performAll {session : Session} (h : session.Confined owned)
    (commands : List (Nat × Command)) : Retains owned session (session.performAll commands) := by
  induction commands generalizing session with
  | nil => exact h.retains
  | cons command rest ih =>
      have hfirst := h.retains_perform command.1 command.2
      exact hfirst.trans (ih hfirst.confined)

end Session

/-- However an evaluation ends, every builtin that is its result, is named by
its failure or is bound to some symbol afterwards was bound to some symbol
before. So a session in which no symbol is bound to `print` prints nothing,
whatever commands follow one another in it. -/
theorem builtins_not_forged (session : Session) :
    (∀ (form : Form) (result : Except Failure Value) (later : Session) (builtin : Builtin),
      form.Ends session result later →
        (result = .ok (.builtin builtin) ∨
          (∃ failure, result = .error failure ∧
            failure.fault.value? = some (.builtin builtin)) ∨ later.Holds builtin) →
        session.Holds builtin) ∧
      (¬ session.Holds .print → ∀ commands : List (Nat × Session.Command),
        (session.performAll commands).output = session.output) := by
  have hsession : session.Confined session.Holds := fun _ hholds => hholds
  constructor
  · rintro form result later builtin ⟨turns, hend⟩ hbuiltin
    have hkeep := form.eval_confines session.Holds turns session hsession
    rw [hend] at hkeep
    cases result with
    | ok value =>
        cases hkeep with
        | ok hretains hvalues =>
            rcases hbuiltin with hresult | ⟨failure, hfailure, -⟩ | hlater
            · obtain rfl : value = .builtin builtin := Except.ok.inj hresult
              exact hvalues _ List.mem_cons_self builtin rfl
            · cases hfailure
            · exact hretains.confined builtin hlater
    | error failure =>
        cases hkeep with
        | failed hretains hvalues =>
            rcases hbuiltin with hresult | ⟨other, hfailure, hnamed⟩ | hlater
            · cases hresult
            · obtain rfl : failure = other := Except.error.inj hfailure
              exact hvalues _ hnamed builtin rfl
            · exact hretains.confined builtin hlater
  · intro hprint commands
    exact (hsession.retains_performAll commands).silent hprint

/-- A call of a builtin under a new name, which fails and names it, and a
session in which no printing is left. -/
theorem builtins_not_forged_renamed :
    let form := Form.list [.symbol "let", .list [.symbol "x", .symbol "<"],
      .list [.symbol "x", .symbol "x", .number (.integer 1)]]
    let session := Session.start {}
    let quiet : Session := ⟨.empty, {}⟩
    (∃ failure later, form.Ends session (.error failure) later ∧
      failure.fault.value? = some (.builtin .less)) ∧ session.Holds .less ∧
      ¬ quiet.Holds .print ∧
      (quiet.performAll [(1, .run "(let (y 1) (print y))"), (1, .evalFirst "y")]).output =
        quiet.output := by
  intro form session quiet
  have hends : form.Ends session
      (.error ⟨.invalidArgument (.builtin .less) .comparablePair, _⟩) _ :=
    ⟨0, rfl⟩
  have hprint : ¬ quiet.Holds .print := nofun
  exact ⟨⟨_, _, hends, rfl⟩,
    (builtins_not_forged session).1 form _ _ .less hends (.inr (.inl ⟨_, rfl, rfl⟩)),
    hprint, (builtins_not_forged quiet).2 hprint _⟩

end FlatLisp
