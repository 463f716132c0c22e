import FlatLisp.Proofs.Ending

/-!
What an evaluation may change. The environment is shared and has no scopes, so
every binding made anywhere in a form is still there afterwards; but which
names can be bound is read off the form: the names that its `let` lists give,
and the counter if it counts rounds. All other bindings stay, no name is ever
unbound, and output is only ever added. That holds of failed evaluations too.
-/

namespace FlatLisp

section

variable {ε σ α β : Type}

def stateOf : EStateM.Result ε σ α → σ
  | .ok _ later => later
  | .error _ later => later

/-- A computation leaves a state that is in some relation to the one it began
with. -/
def Keeps (P : σ → σ → Prop) (action : EStateM ε σ α) : Prop :=
  ∀ state, P state (stateOf (action state))

/-- What both parts of a computation keep, the whole keeps, if the relation is
transitive. A failure in the first part ends the computation with what that part
kept. -/
theorem Keeps.bind {P : σ → σ → Prop} [Trans P P P] {x : EStateM ε σ α} {f : α → EStateM ε σ β}
    (hx : Keeps P x) (hf : ∀ value, Keeps P (f value)) : Keeps P (x >>= f) := by
  intro state
  have hfirst := hx state
  change P state (stateOf (EStateM.bind x f state))
  unfold EStateM.bind
  cases hresult : x state with
  | ok value between =>
      rw [hresult] at hfirst
      exact Trans.trans hfirst (hf value between)
  | error stop later =>
      rw [hresult] at hfirst
      exact hfirst

end

namespace Output

def Extends (out later : Output) : Prop :=
  ∃ bytes, later.written = out.written ++ bytes

theorem Extends.refl (out : Output) : out.Extends out :=
  ⟨#[], by simp⟩

theorem Extends.trans {first second third : Output} (h : first.Extends second)
    (hnext : second.Extends third) : first.Extends third := by
  obtain ⟨bytes, hbytes⟩ := h
  obtain ⟨more, hmore⟩ := hnext
  exact ⟨bytes ++ more, by rw [hmore, hbytes, Array.append_assoc]⟩

instance : Trans Extends Extends Extends := ⟨Extends.trans⟩

/-- Writing adds bytes, as many as there is room for, whether it succeeds or
not. -/
theorem keeps_write (text : String) : Keeps Extends (write text) := by
  intro out
  unfold write writeBytes
  cases out.room with
  | none => exact ⟨_, rfl⟩
  | some room =>
      dsimp only
      -- without room for all bytes, those that fit are still at the end
      split
      · exact ⟨_, rfl⟩
      · exact ⟨_, rfl⟩

theorem keeps_flush : Keeps Extends flush := by
  intro out
  unfold flush
  split
  · exact Extends.refl out
  · exact Extends.refl out

theorem keeps_writeLine (text : String) : Keeps Extends (writeLine text) := by
  unfold writeLine
  apply Keeps.bind (keeps_write text)
  intro _
  apply Keeps.bind (keeps_write "\n")
  intro _
  exact keeps_flush

end Output

/-- A later session in which bindings are overwritten or added, for some names
only, and something may have been printed. -/
structure Session.Grows (names : String → Prop) (session later : Session) : Prop where
  bound : ∀ name, session.environment.lookup name ≠ none → later.environment.lookup name ≠ none
  lookup : ∀ name, ¬ names name →
    later.environment.lookup name = session.environment.lookup name
  output : session.output.Extends later.output

namespace Session.Grows

variable {names : String → Prop} {first second third : Session}

theorem refl (session : Session) : Grows names session session :=
  ⟨fun _ hbound => hbound, fun _ _ => rfl, Output.Extends.refl _⟩

theorem trans (h : Grows names first second) (hnext : Grows names second third) :
    Grows names first third := by
  constructor
  · intro name hbound
    exact hnext.bound name (h.bound name hbound)
  · intro name hname
    rw [hnext.lookup name hname, h.lookup name hname]
  · exact h.output.trans hnext.output

instance : Trans (Grows names) (Grows names) (Grows names) := ⟨trans⟩

/-- To bind one of the names is a way for a session to grow. -/
theorem insert {name : String} (h : names name) (session : Session) (value : Value) :
    Grows names session { session with environment := session.environment.insert name value } := by
  constructor
  · intro other hbound
    by_cases hsame : other = name
    · subst hsame
      rw [Environment.lookup_insert_self]
      exact Option.some_ne_none value
    · rw [Environment.lookup_insert_of_ne _ _ hsame]
      exact hbound
  · intro other hother
    have hdifferent : other ≠ name := by
      rintro rfl
      exact hother h
    exact Environment.lookup_insert_of_ne _ value hdifferent
  · exact Output.Extends.refl _

end Session.Grows

namespace Evaluation

open Session (Grows)

variable {names : String → Prop}

/-- Printing leaves the bindings alone and adds to the output, also when it
fails. -/
theorem keeps_printLine (text : String) : Keeps (Grows names) (printLine text) := by
  intro session
  have hextends := Output.keeps_writeLine text session.output
  unfold printLine
  cases hresult : Output.writeLine text session.output with
  | ok _ output =>
      rw [hresult] at hextends
      exact ⟨fun _ hbound => hbound, fun _ _ => rfl, hextends⟩
  | error message output =>
      rw [hresult] at hextends
      exact ⟨fun _ hbound => hbound, fun _ _ => rfl, hextends⟩

theorem keeps_within {P : Session → Session → Prop} {α : Type} (form : Form) {x : Evaluation α}
    (hx : Keeps P x) : Keeps P (within form x) := by
  intro session
  have hinner := hx session
  unfold within
  split
  next hfailed =>
    rw [hfailed] at hinner
    exact hinner
  next => exact hinner

theorem keeps_lookup (name : String) : Keeps (Grows names) (lookup name) := by
  intro session
  unfold lookup
  split
  · exact Grows.refl session
  · exact Grows.refl session

theorem congruence_keeps : Congruence fun _ x _ => Keeps (Grows names) x where
  pure _ := Grows.refl
  fail _ := Grows.refl
  bind := Keeps.bind
  within form _ _ := keeps_within form
  printLine := keeps_printLine

end Evaluation

namespace Form

open Session (Grows)

def MayBind (form : Form) (name : String) : Prop :=
  form.HasLetName name ∨
    name = Environment.counter ∧ (form.HasListHeadedBy "loop" ∨ form.HasListHeadedBy "repeat")

/-- The actions that depend on a form bind only the names that the form may
bind: those of its `let` lists, and the counter if a list in it counts rounds.
-/
theorem respects_keeps (form : Form) {names : String → Prop}
    (hnames : ∀ name, form.MayBind name → names name) :
    form.Respects fun _ x _ => Keeps (Grows names) x where
  lookup name _ := Evaluation.keeps_lookup name
  assign name hname value := fun session =>
    Grows.insert (hnames name (.inl hname)) session value
  setCounter hcounts _ := fun session =>
    Grows.insert (hnames _ (.inr ⟨rfl, hcounts⟩)) session _
  unfinished _ _ := fun _ => Grows.refl

theorem eval_keeps (turns : Nat) (form : Form) : Keeps (Grows form.MayBind) (form.eval turns) :=
  eval_congr Evaluation.congruence_keeps (Nat.le_refl turns) form
    (form.respects_keeps fun _ hname => hname)

/-- A whole evaluation keeps to the names that its form may bind. -/
theorem Ends.grows {form : Form} {session later : Session} {result : Except Failure Value}
    (h : form.Ends session result later) : Grows form.MayBind session later := by
  obtain ⟨turns, hturns⟩ := h
  have hkeeps := eval_keeps turns form session
  rw [hturns] at hkeeps
  cases result with
  | ok value => exact hkeeps
  | error failure => exact hkeeps

/-- However an evaluation ends, it leaves every bound symbol bound, the values
of all symbols but the counter and those at name positions of `let`, the
counter too if nothing in the form counts rounds or names it, and the bytes
that were written. -/
theorem evaluation_footprint {form : Form} {session later : Session}
    {result : Except Failure Value} (h : form.Ends session result later) :
    (∀ name, session.environment.lookup name ≠ none → later.environment.lookup name ≠ none) ∧
      (∀ name, name ≠ Environment.counter → ¬ form.HasLetName name →
        later.environment.lookup name = session.environment.lookup name) ∧
      (¬ form.HasListHeadedBy "loop" → ¬ form.HasListHeadedBy "repeat" →
        ¬ form.HasLetName Environment.counter →
        later.environment.lookup Environment.counter =
          session.environment.lookup Environment.counter) ∧
      ∃ bytes, later.output.written = session.output.written ++ bytes := by
  refine ⟨h.grows.bound, ?_, ?_, h.grows.output⟩
  · intro name hcounter hlet
    apply h.grows.lookup
    rintro (hname | ⟨hname, -⟩)
    · exact hlet hname
    · exact hcounter hname
  · intro hloop hrepeat hlet
    apply h.grows.lookup
    rintro (hname | ⟨-, hcounts | hcounts⟩)
    · exact hlet hname
    · exact hloop hcounts
    · exact hrepeat hcounts

/-- A failure after a binding and a line of output. -/
theorem evaluation_footprint_failed :
    let form := list [symbol "let", list [symbol "x", number (.integer 1)],
      list [symbol "print", symbol "x"], symbol "y"]
    let session := Session.start {}
    ∃ later, form.Ends session (.error ⟨.unboundSymbol "y", [form]⟩) later ∧
      later.environment.lookup "y" = session.environment.lookup "y" ∧
      later.environment.lookup "_" = session.environment.lookup "_" ∧
      ∃ bytes, later.output.written = session.output.written ++ bytes := by
  intro form session
  have hends : form.Ends session (.error ⟨.unboundSymbol "y", [form]⟩) _ := ⟨0, rfl⟩
  have hlet : ∀ name, name ≠ "x" → ¬ form.HasLetName name := by
    rintro name hname ⟨bindings, body, hlists, i, hi⟩
    simp only [form, lists, listsAll, symbol, number] at hlists
    obtain ⟨rfl, -⟩ : bindings = [symbol "x", number (.integer 1)] ∧ _ := by
      simpa [symbol, number] using hlists
    cases i with
    | zero => simp [symbol, hname.symm] at hi
    | succ i => simp [Nat.mul_add] at hi
  obtain ⟨-, hothers, hcounter, houtput⟩ := evaluation_footprint hends
  refine ⟨_, hends, hothers "y" (by decide) (hlet _ (by decide)), ?_, houtput⟩
  exact hcounter (by decide) (by decide) (hlet _ (by decide))

end Form

end FlatLisp
