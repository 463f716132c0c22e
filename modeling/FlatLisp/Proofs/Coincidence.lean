import FlatLisp.Proofs.Ending

/-!
An evaluation depends on nothing but the symbols of its form. Two sessions
with the same output, in which these symbols are bound alike or are unbound
alike, cannot be told apart by it: from either one it ends in the same way or
runs forever, and what it binds and prints on the way keeps the sessions
alike. The symbols that head special forms are not among them, so nobody can
redefine `if` or `let` by binding it.
-/

namespace FlatLisp

/-- Sessions with the same output in which some names are bound alike. -/
structure Session.Agree (names : String → Prop) (first second : Session) : Prop where
  output : first.output = second.output
  lookup : ∀ name, names name →
    first.environment.lookup name = second.environment.lookup name

theorem Session.Agree.symm {names : String → Prop} {first second : Session}
    (h : Agree names first second) : Agree names second first :=
  ⟨h.output.symm, fun name hname => (h.lookup name hname).symm⟩

/-- The same binding on both sides keeps what agrees, be the name one of the
given names or not. -/
theorem Session.Agree.insert {names : String → Prop} {first second : Session}
    (h : Agree names first second) (name : String) (value : Value) :
    Agree names { first with environment := first.environment.insert name value }
      { second with environment := second.environment.insert name value } := by
  refine ⟨h.output, fun other hother => ?_⟩
  by_cases hsame : other = name
  · subst hsame
    rw [Environment.lookup_insert_self, Environment.lookup_insert_self]
  · rw [Environment.lookup_insert_of_ne _ _ hsame, Environment.lookup_insert_of_ne _ _ hsame]
    exact h.lookup other hother

theorem Session.agree_insert (session : Session) (name : String) (value : Value) :
    Agree (· ≠ name) session
      { session with environment := session.environment.insert name value } :=
  ⟨rfl, fun _ hother => (Environment.lookup_insert_of_ne _ value hother).symm⟩

namespace Evaluation

open Session (Agree)

variable {names : String → Prop}

/-- To look up one of the names is the same in sessions that agree on them, also
if it is not bound. -/
theorem simulates_lookup {name : String} (h : names name) :
    Simulates (Agree names) (lookup name) (lookup name) := by
  refine simulates_of_conclude fun first second hagree => ?_
  have hsame := hagree.lookup name h
  cases hfirst : first.environment.lookup name with
  | none =>
      refine ⟨.error { fault := .unboundSymbol name }, first, second, ?_, ?_, hagree⟩
      · rw [lookup, hfirst]
        rfl
      · rw [lookup, ← hsame, hfirst]
        rfl
  | some value =>
      refine ⟨.ok value, first, second, ?_, ?_, hagree⟩
      · rw [lookup, hfirst]
        rfl
      · rw [lookup, ← hsame, hfirst]
        rfl

theorem simulates_assign (name : String) (value : Value) :
    Simulates (Agree names) (assign name value) (assign name value) :=
  simulates_of_conclude fun _ _ hagree => ⟨.ok (), _, _, rfl, rfl, hagree.insert name value⟩

/-- To print is the same in sessions that agree, since they have the same
output. -/
theorem simulates_printLine (text : String) :
    Simulates (Agree names) (printLine text) (printLine text) := by
  refine simulates_of_conclude fun first second hagree => ?_
  unfold printLine
  rw [← hagree.output]
  cases Output.writeLine text first.output with
  | ok _ output => exact ⟨.ok (), _, _, rfl, rfl, rfl, hagree.lookup⟩
  | error message output =>
      exact ⟨.error { fault := .output message }, _, _, rfl, rfl, rfl, hagree.lookup⟩

end Evaluation

namespace Form

open Evaluation
open Session (Agree)

/-- The evaluation of a form ends from both of two sessions or from none, and
if it ends then with the same result and in sessions that agree. -/
structure EndsAlike (form : Form) (names : String → Prop) (first second : Session) : Prop where
  ends_iff : (∃ result later, form.Ends first result later) ↔
    ∃ result later, form.Ends second result later
  same : ∀ result later other otherLater, form.Ends first result later →
    form.Ends second other otherLater → result = other ∧ Agree names later otherLater

theorem respects_simulates_agree (form : Form) {names : String → Prop}
    (hnames : ∀ name ∈ form.symbols, names name) : form.Respects (Simulates (Agree names)) where
  lookup name hname := simulates_lookup (hnames name hname)
  assign name _ value := simulates_assign name value
  setCounter _ _ := simulates_assign _ _
  unfinished _ _ := simulates_unfinished

/-- How an evaluation ends depends only on the symbols of its form: from a
session that agrees on them it ends in the same way. -/
theorem Ends.of_agree {form : Form} {names : String → Prop}
    (hnames : ∀ name ∈ form.symbols, names name) {first second later : Session}
    {result : Except Failure Value} (hagree : Agree names first second)
    (h : form.Ends first result later) :
    ∃ other, form.Ends second result other ∧ Agree names later other := by
  obtain ⟨turns, hturns⟩ := h
  have hsimulates := eval_congr (congruence_simulates simulates_printLine) (Nat.le_refl turns) form
    (form.respects_simulates_agree hnames)
  obtain ⟨other, hother, hlater⟩ := hsimulates first second hagree result later hturns
  exact ⟨other, ⟨turns, hother⟩, hlater⟩

/-- Agreement has two sides, so it is enough to know one direction of it. -/
theorem endsAlike_of_agree {form : Form} {names : String → Prop}
    (hnames : ∀ name ∈ form.symbols, names name) {first second : Session}
    (hagree : Agree names first second) : form.EndsAlike names first second := by
  refine ⟨⟨?_, ?_⟩, ?_⟩
  · rintro ⟨result, later, h⟩
    obtain ⟨other, hother, -⟩ := h.of_agree hnames hagree
    exact ⟨result, other, hother⟩
  · rintro ⟨result, later, h⟩
    obtain ⟨other, hother, -⟩ := h.of_agree hnames hagree.symm
    exact ⟨result, other, hother⟩
  · intro result later other otherLater hfirst hsecond
    -- the ending that the first one forces is the ending that there is
    obtain ⟨forced, hforced, hlater⟩ := hfirst.of_agree hnames hagree
    obtain ⟨rfl, rfl⟩ := hforced.unique hsecond
    exact ⟨rfl, hlater⟩

/-- Sessions with the same output that agree on the symbols of a form, its
special heads aside, are alike to the evaluation of the form. So binding the
keyword of a special form changes nothing for a form in which it only heads
special forms, and nothing but that one binding is different afterwards. -/
theorem evaluation_coincides (form : Form) {first second : Session}
    (h : Agree (· ∈ form.symbols) first second) :
    form.EndsAlike (· ∈ form.symbols) first second ∧
      ∀ (special : SpecialForm) (value : Value), special.keyword ∉ form.symbols →
        form.EndsAlike (· ≠ special.keyword) first
          { first with environment := first.environment.insert special.keyword value } := by
  refine ⟨endsAlike_of_agree (fun _ hname => hname) h, ?_⟩
  intro special value hkeyword
  refine endsAlike_of_agree ?_ (first.agree_insert special.keyword value)
  rintro name hname rfl
  exact hkeyword hname

/-- A loop inside a `let`, in a session where `let` is bound to something. -/
theorem evaluation_coincides_rebound :
    let form := list [symbol "let", list [symbol "x", number (.integer 1)],
      list [symbol "loop", list [symbol "<", symbol "_", symbol "x"],
        list [symbol "print", symbol "x"]]]
    let first := Session.start {}
    let second : Session := { first with environment := first.environment.insert "let" .nil }
    Agree (· ∈ form.symbols) first second ∧ (∃ later, form.Ends first (.ok (.text "1")) later) ∧
      form.EndsAlike (· ∈ form.symbols) first second ∧
      form.EndsAlike (· ≠ "let") first second := by
  intro form first second
  have hagree : Agree (· ∈ form.symbols) first second := by
    refine ⟨rfl, fun name hname => ?_⟩
    have hother : name ≠ "let" := by
      rintro rfl
      revert hname
      decide
    exact (first.agree_insert "let" .nil).lookup name hother
  have hends : form.Ends first (.ok (.text "1")) _ := ⟨2, rfl⟩
  obtain ⟨halike, hkeyword⟩ := evaluation_coincides form hagree
  exact ⟨hagree, ⟨_, hends⟩, halike, hkeyword .binding .nil (by decide)⟩

end Form

end FlatLisp
