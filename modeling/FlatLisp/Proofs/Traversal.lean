import FlatLisp.Program
import FlatLisp.Proofs.Layout
import FlatLisp.Proofs.Occurrence

/-!
Going through an evaluation. It is put together from few actions: it looks
symbols up, assigns, calls, fails, adds frames and may be cut off, and which
symbols and texts are involved can be seen from the form. Every value that
turns up on the way is a literal of the form, or was looked up, or was given
by a call.

So what relates two actions, and says something of the values that they give,
is carried from these parts to the evaluations of a form. The two sides may
have different bounds on their loops. `evalList_composes` goes one level down,
from a list to the forms that are evaluated for its sake; it is the one place
where the cases of evaluation are gone through. `eval_tracks` goes all the way
down, and `run_tracks` and `evalFirst_tracks` go on to source texts, whose
forms are what the relation has to do with.
-/

namespace FlatLisp

def Fault.value? : Fault → Option Value
  | .notCallable value => some value
  | .invalidArgument given _ => some given
  | _ => none

theorem Fault.value?_of_isSyntactic {fault : Fault} (h : fault.isSyntactic = true) :
    fault.value? = none := by
  cases fault with
  | unmatchedClose | unmatchedOpen | invalidNumber _ => rfl
  | _ => cases h

/-- Relations between actions that are told which values are part of what the
actions give. -/
abbrev Evaluation.Relation :=
  ∀ ⦃α : Type⦄, (α → List Value) → Evaluation α → Evaluation α → Prop

/-- A relation that passes from the parts of an action to the action, as long
as all values that come up satisfy `V`. -/
structure Evaluation.Tracks (V : Value → Prop) (R : Relation) : Prop where
  number : ∀ value, V (.number value)
  nil : V .nil
  pure : ∀ {α : Type} {held : α → List Value} {result : α}, (∀ value ∈ held result, V value) →
    R held (pure result) (pure result)
  bind : ∀ {α β : Type} {held : α → List Value} {heldNext : β → List Value} {x y : Evaluation α}
    {f g : α → Evaluation β}, R held x y →
      (∀ result, (∀ value ∈ held result, V value) → R heldNext (f result) (g result)) →
      R heldNext (x >>= f) (y >>= g)
  fail : ∀ {α : Type} {held : α → List Value} {fault : Fault},
    (∀ value, fault.value? = some value → V value) → R held (fail fault) (fail fault)
  within : ∀ {α : Type} {held : α → List Value} (form : Form) {x y : Evaluation α},
    R held x y → R held (within form x) (within form y)
  call : ∀ {value : Value} {arguments : List Value}, V value →
    (∀ argument ∈ arguments, V argument) →
      R List.singleton (call value arguments) (call value arguments)

/-- A relation that passes from the parts of an action to the action, as long
as no list is entered. The faults that it has to do with are those of
evaluation. -/
structure Evaluation.Composes (V : Value → Prop) (R : Relation) : Prop where
  nil : V .nil
  pure : ∀ {α : Type} {held : α → List Value} {result : α}, (∀ value ∈ held result, V value) →
    R held (pure result) (pure result)
  bind : ∀ {α β : Type} {held : α → List Value} {heldNext : β → List Value} {x y : Evaluation α}
    {f g : α → Evaluation β}, R held x y →
      (∀ result, (∀ value ∈ held result, V value) → R heldNext (f result) (g result)) →
      R heldNext (x >>= f) (y >>= g)
  fail : ∀ {α : Type} {held : α → List Value} {fault : Fault}, fault.isSyntactic = false →
    (∀ value, fault.value? = some value → V value) → R held (fail fault) (fail fault)
  call : ∀ {value : Value} {arguments : List Value}, V value →
    (∀ argument ∈ arguments, V argument) →
      R List.singleton (call value arguments) (call value arguments)

/-- What a relation has to do with the actions that depend on a form. -/
structure Form.Tracked (form : Form) (V : Value → Prop) (R : Evaluation.Relation) : Prop where
  text : ∀ content, form.HasAtom (.text content) → V (.text content)
  lookup : ∀ name ∈ form.symbols,
    R List.singleton (Evaluation.lookup name) (Evaluation.lookup name)
  assign : ∀ name, form.HasLetName name → ∀ value, V value →
    R (fun _ => []) (Evaluation.assign name value) (Evaluation.assign name value)
  setCounter : form.HasListHeadedBy "loop" ∨ form.HasListHeadedBy "repeat" → ∀ i,
    R (fun _ => []) (Evaluation.setCounter i) (Evaluation.setCounter i)
  unfinished : form.HasListHeadedBy "loop" → ∀ {α : Type} {held : α → List Value}
    (action : Evaluation α), R held (throw .unfinished) action

variable {V : Value → Prop} {R : Evaluation.Relation} {m n : Nat}

/-- What is asked of a list is asked of its elements. The head counts if it is
evaluated. -/
theorem Form.Tracked.element {head form : Form} {rest : List Form}
    (h : (list (head :: rest)).Tracked V R)
    (hform : form ∈ rest ∨ form = head ∧ SpecialForm.ofHead? head = none) :
    form.Tracked V R := by
  have hmember : form ∈ head :: rest := by
    rcases hform with hform | ⟨rfl, -⟩
    · exact List.mem_cons_of_mem _ hform
    · exact List.mem_cons_self
  constructor
  · intro content hcontent
    exact h.text content (hasAtom_list hmember hcontent)
  · intro name hname
    exact h.lookup name (mem_symbols_list hform hname)
  · intro name hname
    exact h.assign name (hname.list hmember)
  · intro hcounts
    exact h.setCounter (hcounts.imp (·.list hmember) (·.list hmember))
  · intro hloop
    exact h.unfinished (hloop.list hmember)

/-- What a relation has to do with a list it has to do with each part, since all
that occurs in the part occurs in the list. -/
theorem Form.Tracked.part {elements : List Form} {form : Form}
    (h : (list elements).Tracked V R) (hform : form ∈ (list elements).parts) :
    form.Tracked V R := by
  cases elements with
  | nil => cases hform
  | cons head rest =>
      rcases mem_parts_list hform with hmember | ⟨bindings, body, -, rfl, hbound⟩
      · exact h.element hmember
      · have hbindings : (list bindings).Tracked V R := h.element (.inl List.mem_cons_self)
        cases bindings with
        | nil => cases hbound
        | cons first others => exact hbindings.element (.inl (boundForms_subset _ hbound))

namespace Evaluation.Composes

theorem value (C : Composes V R) {value : Value} (h : V value) :
    R List.singleton (Pure.pure value) (Pure.pure value) :=
  C.pure (List.forall_mem_singleton.mpr h)

theorem bindValue (C : Composes V R) {β : Type} {held : β → List Value} {x y : Evaluation Value}
    {f g : Value → Evaluation β} (hx : R List.singleton x y)
    (hf : ∀ value, V value → R held (f value) (g value)) : R held (x >>= f) (y >>= g) :=
  C.bind hx fun value hvalue => hf value (List.forall_mem_singleton.mp hvalue)

/-- One more round on both sides keeps the relation, so all rounds do. -/
theorem loopFrom (C : Composes V R) {test test' : Evaluation Value}
    {body body' : Evaluation (Option Value)} (htest : R List.singleton test test')
    (hbody : R Option.toList body body')
    (hcounter : ∀ i, R (fun _ => []) (setCounter i) (setCounter i))
    (hcut : ∀ action : Evaluation Value, R List.singleton (throw .unfinished) action)
    (hturns : m ≤ n) (i : Nat) {result : Value} (hresult : V result) :
    R List.singleton (loopFrom test body m i result) (loopFrom test' body' n i result) := by
  induction m generalizing n i result with
  | zero => exact hcut _
  | succ m ih =>
      obtain ⟨n, rfl⟩ : ∃ k, n = k + 1 := ⟨n - 1, by omega⟩
      have hturns : m ≤ n := by omega
      refine C.bind (hcounter i) fun _ _ => C.bindValue htest fun value _ => ?_
      split
      · refine C.bind hbody fun last hlast => ih hturns _ ?_
        cases last with
        | none => exact hresult
        | some value => exact hlast value List.mem_cons_self
      · exact C.value hresult

/-- Rounds of related bodies are related, by induction on their number. -/
theorem repeatFrom (C : Composes V R) {body body' : Evaluation (Option Value)}
    (hbody : R Option.toList body body')
    (hcounter : ∀ i, R (fun _ => []) (setCounter i) (setCounter i)) (rounds i : Nat)
    {result : Value} (hresult : V result) :
    R List.singleton (repeatFrom body rounds i result) (repeatFrom body' rounds i result) := by
  induction rounds generalizing i result with
  | zero => exact C.value hresult
  | succ rounds ih =>
      refine C.bind (hcounter i) fun _ _ => C.bind hbody fun last hlast => ih _ ?_
      cases last with
      | none => exact hresult
      | some value => exact hlast value List.mem_cons_self

theorem repeatCount (C : Composes V R) {value : Value} (hvalue : V value) :
    R (fun _ => []) (repeatCount value) (repeatCount value) := by
  unfold Evaluation.repeatCount
  split
  · exact C.pure nofun
  · apply C.fail rfl
    intro other hother
    obtain rfl : value = other := by simpa [Fault.value?] using hother
    exact hvalue

end Evaluation.Composes

namespace Evaluation.Tracks

theorem composes (T : Tracks V R) : Composes V R where
  nil := T.nil
  pure := T.pure
  bind := T.bind
  fail _ := T.fail
  call := T.call

theorem fail_of_isSyntactic (T : Tracks V R) {α : Type} {held : α → List Value} {fault : Fault}
    (h : fault.isSyntactic = true) : R held (Evaluation.fail fault) (Evaluation.fail fault) := by
  apply T.fail
  intro value hvalue
  rw [Fault.value?_of_isSyntactic h] at hvalue
  cases hvalue

end Evaluation.Tracks

namespace Form

open Evaluation (Composes Tracks)

section

variable (C : Composes V R)
include C

/-- Evaluating forms in a row is related if the forms are. -/
theorem evalAll_composes {forms : List Form}
    (h : ∀ form ∈ forms, R List.singleton (form.eval m) (form.eval n)) :
    R id (evalAll m forms) (evalAll n forms) := by
  induction forms with
  | nil => exact C.pure nofun
  | cons form rest ih =>
      have hrest := ih fun other hother => h other (List.mem_cons_of_mem _ hother)
      refine C.bindValue (h form List.mem_cons_self) fun value hvalue => ?_
      refine C.bind hrest fun values hvalues => C.pure ?_
      intro other hother
      rcases List.mem_cons.mp hother with rfl | hother
      · exact hvalue
      · exact hvalues other hother

theorem evalBody_composes {forms : List Form}
    (h : ∀ form ∈ forms, R List.singleton (form.eval m) (form.eval n)) :
    R Option.toList (evalBody m forms) (evalBody n forms) := by
  induction forms with
  | nil => exact C.pure nofun
  | cons form rest ih =>
      have hrest := ih fun other hother => h other (List.mem_cons_of_mem _ hother)
      refine C.bindValue (h form List.mem_cons_self) fun value hvalue => ?_
      refine C.bind hrest fun last hlast => C.pure ?_
      intro other hother
      obtain rfl : other = last.getD value := List.mem_singleton.mp hother
      cases last with
      | none => exact hvalue
      | some other => exact hlast other List.mem_cons_self

/-- Binding names is related if the forms are that give them values. Only the
forms at odd places are evaluated and only the symbols at even ones are bound.
-/
theorem evalBindings_composes {bindings : List Form}
    (h : ∀ form ∈ boundForms bindings, R List.singleton (form.eval m) (form.eval n))
    (hassign : ∀ i name, bindings[2 * i]? = some (symbol name) → ∀ value, V value →
      R (fun _ => []) (Evaluation.assign name value) (Evaluation.assign name value)) :
    R (fun _ => []) (evalBindings m bindings) (evalBindings n bindings) := by
  fun_induction boundForms bindings with
  | case1 name form rest ih =>
      simp only [evalBindings]
      split
      next symbol hsymbol =>
        refine C.bindValue (h form List.mem_cons_self) fun value hvalue => ?_
        refine C.bind (hassign 0 symbol ?_ value hvalue) fun _ _ => ih ?_ ?_
        · simpa using symbol?_eq_some_iff.mp hsymbol
        · intro other hother
          exact h other (List.mem_cons_of_mem _ hother)
        · intro i later hlater
          exact hassign (i + 1) later (by simpa [Nat.mul_add] using hlater)
      next => exact C.fail rfl (by rintro _ ⟨⟩)
  | case2 bindings hshort =>
      cases bindings with
      | nil => exact C.pure (List.forall_mem_nil _)
      | cons name rest =>
          cases rest with
          | nil => exact C.pure (List.forall_mem_nil _)
          | cons form rest => exact absurd rfl (hshort name form rest)

/-- A relation that passes from parts to actions holds between the evaluations
of a list if it holds between those of the parts of the list, and does what
the list asks for by itself. -/
theorem evalList_composes (hturns : m ≤ n) {elements : List Form}
    (h : (list elements).Tracked V R)
    (hparts : ∀ form ∈ (list elements).parts, R List.singleton (form.eval m) (form.eval n)) :
    R List.singleton (evalList m elements) (evalList n elements) := by
  cases elements with
  | nil => exact C.fail rfl nofun
  | cons head rest =>
      cases hhead : SpecialForm.ofHead? head with
      | none =>
          rw [evalList_call _ hhead, evalList_call _ hhead]
          rw [parts_call hhead] at hparts
          refine C.bindValue (hparts head List.mem_cons_self) fun _ hvalue => ?_
          refine C.bind (evalAll_composes C fun form hform => ?_) fun _ harguments =>
            C.call hvalue harguments
          exact hparts form (List.mem_cons_of_mem _ hform)
      | some special =>
          have hself := hasListHeadedBy_self head rest hhead
          cases special with
          | choice =>
              rw [evalList_choice _ hhead, evalList_choice _ hhead]
              rw [parts_special hhead (by decide)] at hparts
              match rest with
              | [test, consequent] =>
                  refine C.bindValue (hparts test (by simp)) fun _ _ => ?_
                  split
                  · exact hparts consequent (by simp)
                  · exact C.value C.nil
              | [test, consequent, alternative] =>
                  refine C.bindValue (hparts test (by simp)) fun _ _ => ?_
                  split
                  · exact hparts consequent (by simp)
                  · exact hparts alternative (by simp)
              | [] => exact C.fail rfl nofun
              | [_] => exact C.fail rfl nofun
              | _ :: _ :: _ :: _ :: _ => exact C.fail rfl nofun
          | loop =>
              rw [evalList_loop _ hhead, evalList_loop _ hhead]
              rw [parts_special hhead (by decide)] at hparts
              match rest with
              | [] => exact C.fail rfl nofun
              | test :: body =>
                  have hbody := evalBody_composes C fun form hform =>
                    hparts form (List.mem_cons_of_mem _ hform)
                  exact C.loopFrom (hparts test List.mem_cons_self) hbody
                    (h.setCounter (.inl hself)) (h.unfinished hself) hturns 0 C.nil
          | repetition =>
              rw [evalList_repetition _ hhead, evalList_repetition _ hhead]
              rw [parts_special hhead (by decide)] at hparts
              match rest with
              | [] => exact C.fail rfl nofun
              | count :: body =>
                  have hbody := evalBody_composes C fun form hform =>
                    hparts form (List.mem_cons_of_mem _ hform)
                  refine C.bindValue (hparts count List.mem_cons_self) fun value hvalue => ?_
                  refine C.bind (C.repeatCount hvalue) fun rounds _ => ?_
                  exact C.repeatFrom hbody (h.setCounter (.inr hself)) rounds 1 C.nil
          | binding =>
              rw [evalList_binding _ hhead, evalList_binding _ hhead]
              match rest with
              | [] => exact C.fail rfl nofun
              | .atom _ :: _ => exact C.fail rfl nofun
              | .list bindings :: body =>
                  rw [parts_binding hhead] at hparts
                  have hbody := evalBody_composes C fun form hform =>
                    hparts form (List.mem_append_right _ hform)
                  by_cases heven : bindings.length % 2 = 0
                  · simp only [heven, if_true]
                    refine C.bind (evalBindings_composes C ?_ ?_) fun _ _ => ?_
                    · intro form hform
                      exact hparts form (List.mem_append_left _ hform)
                    · intro i name hname
                      exact h.assign name (hasLetName_self hhead body hname)
                    · refine C.bind hbody fun last hlast => C.value ?_
                      cases last with
                      | none => exact C.nil
                      | some value => exact hlast value List.mem_cons_self
                  · simp only [heven, if_false]
                    exact C.fail rfl nofun

end

/-- A relation that passes from parts to actions holds between the evaluations
of a form, if it does what the form asks for and the left one is bounded by no
more turns than the right one. -/
theorem eval_tracks (T : Tracks V R) (hturns : m ≤ n) (form : Form) (h : form.Tracked V R) :
    R List.singleton (form.eval m) (form.eval n) := by
  induction form using parts_induction with
  | atom value =>
      cases value with
      | number value => exact T.composes.value (T.number value)
      | text content => exact T.composes.value (h.text content List.mem_cons_self)
      | symbol name => exact h.lookup name List.mem_cons_self
  | list elements ih =>
      have hparts := fun form hform => ih form hform (h.part hform)
      exact T.within _ (evalList_composes T.composes hturns h hparts)

theorem evalAll_tracks (T : Tracks V R) (hturns : m ≤ n) (forms : List Form)
    (h : ∀ form ∈ forms, form.Tracked V R) : R id (evalAll m forms) (evalAll n forms) :=
  evalAll_composes T.composes fun form hform => eval_tracks T hturns form (h form hform)

theorem evalBody_tracks (T : Tracks V R) (hturns : m ≤ n) (forms : List Form)
    (h : ∀ form ∈ forms, form.Tracked V R) :
    R Option.toList (evalBody m forms) (evalBody n forms) :=
  evalBody_composes T.composes fun form hform => eval_tracks T hturns form (h form hform)

end Form

namespace Program

open Evaluation (Tracks)

theorem run_tracks (T : Tracks V R) (hturns : m ≤ n) {source : String}
    (h : ∀ given, forms source = .ok given → ∀ form ∈ given, form.Tracked V R) :
    R id (run m source) (run n source) := by
  unfold run
  cases hforms : forms source with
  | error fault => exact T.fail_of_isSyntactic (Form.isSyntactic_of_parseAll_error hforms)
  | ok given => exact Form.evalAll_tracks T hturns given (h given hforms)

/-- A source text that cannot be read fails alike on both sides. Otherwise its
first form is evaluated. -/
theorem evalFirst_tracks (T : Tracks V R) (hturns : m ≤ n) {source : String}
    (h : ∀ form rest, Form.parse (tokens source) = (.ok (some form), rest) → form.Tracked V R) :
    R Option.toList (evalFirst m source) (evalFirst n source) := by
  unfold evalFirst
  cases hparse : Form.parse (tokens source) with
  | mk outcome rest =>
      have hfirst : (Form.parse (tokens source)).1 = outcome := by rw [hparse]
      cases outcome with
      | error fault =>
          exact T.fail_of_isSyntactic
            (Form.isSyntactic_of_parseAll_error (Form.parseAll_of_parse_error hfirst))
      | ok first =>
          cases first with
          | none => exact T.pure nofun
          | some form =>
              change R Option.toList (some <$> form.eval m) (some <$> form.eval n)
              rw [← bind_pure_comp, ← bind_pure_comp]
              refine T.composes.bindValue (Form.eval_tracks T hturns form (h form rest hparse)) ?_
              intro value hvalue
              exact T.pure (List.forall_mem_singleton.mpr hvalue)

end Program

end FlatLisp
