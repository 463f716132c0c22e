import FlatLisp.Proofs.Ending
import Mathlib.Data.List.Chain

/-!
The frames of a failure. Every list that a failure passes on its way out adds
itself, so the frames lead from the list in which the fault arose to the form
that was to be evaluated, and each of them was evaluated for the sake of the
next one. The bindings of a `let` list are not evaluated as a list and are
never a frame.

One level of that is `evalList_failed`: a list fails by a fault of its own or
because a part of it fails. `Trace` is what an induction over the parts makes
of it, and `failure_traces_path` says what can be seen of it in the frames.
-/

namespace FlatLisp

/-- A composition fails in its first part or in its second. -/
theorem bind_eq_error {ε α β : Type} {x : Except ε α} {f : α → Except ε β} {fault : ε}
    (h : (x >>= f) = .error fault) :
    x = .error fault ∨ ∃ value, x = .ok value ∧ f value = .error fault := by
  cases x with
  | error found =>
      cases h
      exact .inl rfl
  | ok value => exact .inr ⟨value, rfl, h⟩

theorem Value.isSyntactic_of_asNumber {value : Value} {fault : Fault}
    (h : value.asNumber = .error fault) : fault.isSyntactic = false := by
  unfold asNumber at h
  split at h
  · cases h
  · cases h
    rfl

namespace Builtin

variable {op : Number → Number → Except ArithmeticFault Number}

/-- The faults of arithmetic arise in evaluation: no builtin complains about a
source text. -/
theorem isSyntactic_of_combine {total : Number} {argument : Value} {fault : Fault}
    (h : combine op total argument = .error fault) : fault.isSyntactic = false := by
  rcases bind_eq_error h with hargument | ⟨value, -, hop⟩
  · exact Value.isSyntactic_of_asNumber hargument
  · cases hresult : op total value with
    | ok number =>
        rw [hresult] at hop
        cases hop
    | error found =>
        rw [hresult] at hop
        cases hop
        rfl

theorem isSyntactic_of_foldlM {arguments : List Value} {total : Number} {fault : Fault}
    (h : arguments.foldlM (combine op) total = .error fault) : fault.isSyntactic = false := by
  induction arguments generalizing total with
  | nil => cases h
  | cons argument rest ih =>
      rw [List.foldlM_cons] at h
      rcases bind_eq_error h with hstep | ⟨next, -, hrest⟩
      · exact isSyntactic_of_combine hstep
      · exact ih hrest

theorem isSyntactic_of_arithmetic {arguments : List Value} {fault : Fault}
    (h : arithmetic op arguments = .error fault) : fault.isSyntactic = false := by
  cases arguments with
  | nil =>
      cases h
      rfl
  | cons first rest =>
      rcases bind_eq_error h with hfirst | ⟨start, -, hfold⟩
      · exact Value.isSyntactic_of_asNumber hfirst
      · rcases bind_eq_error hfold with hfold | ⟨total, -, hpure⟩
        · exact isSyntactic_of_foldlM hfold
        · cases hpure

theorem isSyntactic_of_sum {arguments : List Value} {fault : Fault}
    (h : sum arguments = .error fault) : fault.isSyntactic = false := by
  unfold sum at h
  split at h
  · cases h
  · exact isSyntactic_of_arithmetic h

theorem isSyntactic_of_ordered {order : Ordering} {arguments : List Value} {fault : Fault}
    (h : ordered order arguments = .error fault) : fault.isSyntactic = false := by
  unfold ordered at h
  split at h
  · cases h
  · cases h
  · cases h
    rfl
  · cases h
    rfl

end Builtin

namespace Evaluation

/-- Fails, if at all, with a fault of evaluation and without frames. -/
def FailsItself {α : Type} (x : Evaluation α) : Prop :=
  ∀ session failure later, x session = conclude (.error failure) later →
    failure.fault.isSyntactic = false ∧ failure.frames = []

theorem failsItself_pure {α : Type} (value : α) : FailsItself (pure value : Evaluation α) := by
  intro session failure later hend
  cases hend

theorem failsItself_fail {α : Type} {fault : Fault} (h : fault.isSyntactic = false) :
    FailsItself (fail fault : Evaluation α) := by
  intro session failure later hend
  cases hend
  exact ⟨h, rfl⟩

theorem failsItself_ofExcept {α : Type} {result : Except Fault α}
    (h : ∀ fault, result = .error fault → fault.isSyntactic = false) :
    FailsItself (ofExcept result) := by
  cases result with
  | ok value => exact failsItself_pure value
  | error fault => exact failsItself_fail (h fault rfl)

theorem failsItself_lookup (name : String) : FailsItself (lookup name) := by
  intro session failure later hend
  unfold lookup at hend
  split at hend
  · cases hend
  · exact failsItself_fail rfl session failure later hend

theorem failsItself_printLine (text : String) : FailsItself (printLine text) := by
  intro session failure later hend
  unfold printLine at hend
  split at hend
  · cases hend
  · exact failsItself_fail rfl _ failure later hend

/-- A call fails by itself: no builtin evaluates a form, so there is no list
that it could name. -/
theorem failsItself_call (value : Value) (arguments : List Value) :
    FailsItself (call value arguments) := by
  cases value with
  | builtin procedure =>
      cases procedure with
      | add => exact failsItself_ofExcept fun _ => Builtin.isSyntactic_of_sum
      | sub => exact failsItself_ofExcept fun _ => Builtin.isSyntactic_of_arithmetic
      | mul => exact failsItself_ofExcept fun _ => Builtin.isSyntactic_of_arithmetic
      | div => exact failsItself_ofExcept fun _ => Builtin.isSyntactic_of_arithmetic
      | less => exact failsItself_ofExcept fun _ => Builtin.isSyntactic_of_ordered
      | greater => exact failsItself_ofExcept fun _ => Builtin.isSyntactic_of_ordered
      | print =>
          intro session failure later hend
          rcases bind_eq_conclude hend with ⟨_, _, -, hpure⟩ | ⟨_, hfailure, hprint⟩
          · cases hpure
          · cases hfailure
            exact failsItself_printLine _ session failure later hprint
  | number _ | text _ | boolean _ | nil => exact failsItself_fail rfl

/-- Fails, if at all, by itself or as the evaluation of one of some forms. -/
def FailsIn (turns : Nat) (forms : List Form) : Relation := fun _ _ x _ =>
  ∀ session failure later, x session = conclude (.error failure) later →
    failure.fault.isSyntactic = false ∧ failure.frames = [] ∨
      ∃ form ∈ forms, ∃ between, form.eval turns between = conclude (.error failure) later

variable {turns : Nat} {forms : List Form}

theorem FailsItself.failsIn {α : Type} {x : Evaluation α} (h : FailsItself x)
    (held : α → List Value) : FailsIn turns forms held x x :=
  fun session failure later hend => .inl (h session failure later hend)

/-- Failing in one of some forms, or by itself, passes from the parts of an
action to the action. One level of evaluation follows from that alone. -/
theorem composes_failsIn : Composes (fun _ => True) (FailsIn turns forms) where
  nil := trivial
  pure _ := (failsItself_pure _).failsIn _
  fail hfault _ := (failsItself_fail hfault).failsIn _
  call _ _ := (failsItself_call _ _).failsIn _
  bind hx hf := by
    intro session failure later hend
    rcases bind_eq_conclude hend with ⟨value, between, -, hnext⟩ | ⟨_, hfailure, hfirst⟩
    · exact hf value (fun _ _ => trivial) between failure later hnext
    · cases hfailure
      exact hx session failure later hfirst

end Evaluation

namespace Form

open Evaluation

theorem tracked_failsIn (form : Form) (turns : Nat) (forms : List Form) :
    form.Tracked (fun _ => True) (FailsIn turns forms) where
  text _ _ := trivial
  lookup name _ := (failsItself_lookup name).failsIn _
  assign _ _ _ _ := fun _ _ _ hend => by cases hend
  setCounter _ _ := fun _ _ _ hend => by cases hend
  unfinished _ _ _ _ := fun _ _ _ hend => by cases hend

/-- A list fails by itself, and then without frames, or because a part of it
fails, and then with the failure of that part. -/
theorem evalList_failed {turns : Nat} {elements : List Form} {session later : Session}
    {failure : Failure} (h : evalList turns elements session = conclude (.error failure) later) :
    failure.fault.isSyntactic = false ∧ failure.frames = [] ∨
      ∃ form ∈ (list elements).parts, ∃ between,
        form.eval turns between = conclude (.error failure) later := by
  have hfails : FailsIn turns (list elements).parts List.singleton (evalList turns elements)
      (evalList turns elements) := by
    apply evalList_composes composes_failsIn (Nat.le_refl turns) (tracked_failsIn _ _ _)
    intro form hform session failure later hend
    exact .inr ⟨form, hform, session, hend⟩
  exact hfails session failure later h

/-- An atom fails only as a symbol that is not bound. -/
theorem atom_failed {turns : Nat} {value : Atom} {session later : Session} {failure : Failure}
    (h : eval turns (.atom value) session = conclude (.error failure) later) :
    ∃ name, value = .symbol name ∧ failure = { fault := .unboundSymbol name } := by
  cases value with
  | number _ => cases h
  | text _ => cases h
  | symbol name =>
      change Evaluation.lookup name session = _ at h
      unfold Evaluation.lookup at h
      split at h
      · cases h
      · cases h
        exact ⟨name, rfl, rfl⟩

mutual

def depth : Form → Nat
  | .atom _ => 0
  | .list elements => depthAll elements + 1

def depthAll : List Form → Nat
  | [] => 0
  | form :: rest => max form.depth (depthAll rest)

end

/-- Whether a form stands directly in a list, or stands at an odd place of the
bindings of a list headed by `let`. -/
def StandsIn (inner outer : Form) : Prop :=
  ∃ elements, outer = list elements ∧
    (inner ∈ elements ∨ ∃ bindings body i, elements = symbol "let" :: list bindings :: body ∧
      bindings[2 * i + 1]? = some inner)

theorem depth_lt_of_mem {form : Form} {elements : List Form} (h : form ∈ elements) :
    form.depth < (list elements).depth := by
  rw [depth, Nat.lt_succ_iff]
  induction elements with
  | nil => cases h
  | cons first rest ih =>
      rw [depthAll]
      rcases List.mem_cons.mp h with rfl | h
      · exact Nat.le_max_left _ _
      · exact Nat.le_trans (ih h) (Nat.le_max_right _ _)

/-- What is evaluated for the sake of a list stands in it, directly or as the
value of a binding. -/
theorem standsIn_of_mem_parts {form : Form} {elements : List Form}
    (h : form ∈ (list elements).parts) : form.StandsIn (list elements) := by
  refine ⟨elements, rfl, ?_⟩
  cases elements with
  | nil => cases h
  | cons head rest =>
      rcases mem_parts_list h with (hrest | ⟨rfl, -⟩) | ⟨bindings, body, hhead, rfl, hbound⟩
      · exact .inl (List.mem_cons_of_mem _ hrest)
      · exact .inl List.mem_cons_self
      · obtain ⟨i, hi⟩ := exists_place_of_mem_boundForms hbound
        rw [SpecialForm.ofHead?_eq_some_iff.mp hhead]
        exact .inr ⟨bindings, body, i, rfl, hi⟩

section

variable {inner outer : Form}

theorem StandsIn.cases_mem (h : inner.StandsIn outer) :
    ∃ elements, outer = list elements ∧
      (inner ∈ elements ∨ ∃ bindings, list bindings ∈ elements ∧ inner ∈ bindings) := by
  obtain ⟨elements, rfl, helement | ⟨bindings, body, i, rfl, hi⟩⟩ := h
  · exact ⟨elements, rfl, .inl helement⟩
  · exact ⟨_, rfl, .inr ⟨bindings, by simp, List.mem_of_getElem? hi⟩⟩

theorem StandsIn.depth_lt (h : inner.StandsIn outer) : inner.depth < outer.depth := by
  obtain ⟨elements, rfl, helement | ⟨bindings, hbindings, hbound⟩⟩ := h.cases_mem
  · exact depth_lt_of_mem helement
  · exact Nat.lt_trans (depth_lt_of_mem hbound) (depth_lt_of_mem hbindings)

theorem StandsIn.lists_subset (h : inner.StandsIn outer) : inner.lists ⊆ outer.lists := by
  intro found hfound
  obtain ⟨elements, rfl, helement | ⟨bindings, hbindings, hbound⟩⟩ := h.cases_mem
  · exact mem_lists_list helement hfound
  · exact mem_lists_list hbindings (mem_lists_list hbound hfound)

end

/-- The frames that a fault in the evaluation of a list leaves. The list was
evaluated and failed with these frames. Either it is the only one, or it comes
behind those of a list that is a part of it. -/
inductive Trace (turns : Nat) (fault : Fault) (later : Session) : List Form → List Form → Prop where
  | here {elements : List Form} {session : Session}
      (failed : eval turns (list elements) session =
        conclude (.error ⟨fault, [list elements]⟩) later) :
      Trace turns fault later [list elements] elements
  | into {frames inner elements : List Form} {session : Session}
      (trace : Trace turns fault later frames inner)
      (part : list inner ∈ (list elements).parts)
      (failed : eval turns (list elements) session =
        conclude (.error ⟨fault, frames ++ [list elements]⟩) later) :
      Trace turns fault later (frames ++ [list elements]) elements

section

variable {turns : Nat} {fault : Fault} {later : Session}

/-- The frames of a failed list trace its fault. -/
theorem trace_of_eval {form : Form} {session : Session} {failure : Failure}
    (h : form.eval turns session = conclude (.error failure) later) :
    failure.fault.isSyntactic = false ∧
      ∀ elements, form = list elements →
        Trace turns failure.fault later failure.frames elements := by
  induction form using parts_induction generalizing session failure with
  | atom value =>
      obtain ⟨name, -, rfl⟩ := atom_failed h
      exact ⟨rfl, nofun⟩
  | list elements ih =>
      obtain ⟨result, hinner, hresult⟩ := within_eq_conclude h
      cases result with
      | ok value => cases hresult
      | error found =>
          obtain rfl : failure = found.within (list elements) := Except.error.inj hresult
          have hhere (hframes : found.frames = []) :
              Trace turns found.fault later (found.frames ++ [list elements]) elements := by
            rw [hframes]
            rw [Failure.within, hframes] at h
            exact .here h
          rcases evalList_failed hinner with ⟨hfault, hframes⟩ | ⟨part, hpart, between, hfailed⟩
          · refine ⟨hfault, ?_⟩
            rintro _ ⟨⟩
            exact hhere hframes
          · obtain ⟨hfault, htrace⟩ := ih part hpart hfailed
            refine ⟨hfault, ?_⟩
            rintro _ ⟨⟩
            cases part with
            | atom value =>
                obtain ⟨name, -, rfl⟩ := atom_failed hfailed
                exact hhere rfl
            | list inner => exact .into (htrace inner rfl) hpart h

variable {frames elements : List Form}

theorem Trace.getLast?_eq (h : Trace turns fault later frames elements) :
    frames.getLast? = some (list elements) := by
  cases h with
  | here _ => rfl
  | into _ _ _ => exact List.getLast?_concat

/-- Each frame stands in the next one. -/
theorem Trace.isChain (h : Trace turns fault later frames elements) :
    frames.IsChain fun inner outer => inner ∈ outer.parts ∧ inner.StandsIn outer := by
  induction h with
  | here _ => exact List.isChain_singleton _
  | into htrace hpart _ ih =>
      refine ih.append (List.isChain_singleton _) ?_
      rintro last hlast _ ⟨⟩
      obtain rfl := Option.some.inj (htrace.getLast?_eq.symm.trans hlast)
      exact ⟨hpart, standsIn_of_mem_parts hpart⟩

/-- Every frame is one of the lists that the form is made of. -/
theorem Trace.mem_lists (h : Trace turns fault later frames elements) {frame : Form}
    (hframe : frame ∈ frames) : ∃ inner ∈ (list elements).lists, frame = list inner := by
  have hself : ∀ elements, elements ∈ (list elements).lists := by
    intro elements
    rw [lists]
    exact List.mem_cons_self
  induction h with
  | here _ => exact ⟨_, hself _, List.mem_singleton.mp hframe⟩
  | into _ hpart _ ih =>
      rcases List.mem_append.mp hframe with hinner | houter
      · obtain ⟨inner, hlists, rfl⟩ := ih hinner
        exact ⟨inner, (standsIn_of_mem_parts hpart).lists_subset hlists, rfl⟩
      · exact ⟨_, hself _, List.mem_singleton.mp houter⟩

/-- There are at most as many frames as lists are nested, since each is strictly
less deep than the next. -/
theorem Trace.length_le_depth (h : Trace turns fault later frames elements) :
    frames.length ≤ (list elements).depth := by
  induction h with
  | here _ =>
      rw [depth]
      exact Nat.le_add_left 1 _
  | into _ hpart _ ih =>
      have hdeeper := (standsIn_of_mem_parts hpart).depth_lt
      rw [List.length_append, List.length_singleton]
      omega

/-- Every frame is a list that failed with the frames up to itself, and that
left the session as the whole evaluation leaves it. -/
theorem Trace.failed_at (h : Trace turns fault later frames elements) {i : Nat} {frame : Form}
    (hframe : frames[i]? = some frame) :
    ∃ between, frame.Ends between (.error ⟨fault, frames.take (i + 1)⟩) later := by
  induction h with
  | @here elements session hfailed =>
      cases i with
      | zero =>
          obtain rfl : list elements = frame := Option.some.inj hframe
          exact ⟨session, turns, hfailed⟩
      | succ i => cases hframe
  | @into frames inner elements session _ _ hfailed ih =>
      rcases Nat.lt_or_ge i frames.length with hinner | houter
      · rw [List.getElem?_append_left hinner] at hframe
        rw [List.take_append_of_le_length hinner]
        exact ih hframe
      · rw [List.getElem?_append_right houter] at hframe
        have hlast : i = frames.length := by
          have hbound := (List.getElem?_eq_some_iff.mp hframe).1
          rw [List.length_singleton] at hbound
          omega
        subst hlast
        rw [Nat.sub_self] at hframe
        obtain rfl : list elements = frame := Option.some.inj hframe
        rw [List.take_of_length_le (by simp)]
        exact ⟨session, turns, hfailed⟩

end

/-- A failed evaluation never fails by a fault of the source text. An atom that
fails is a symbol without a value, and there are no frames. A list that fails
is the last frame; each frame before it was evaluated for the sake of the next
one, as an element or as a form that a `let` list names; so the frames descend
strictly through lists of the form, no further than lists are nested in it, and
each of them failed with the frames up to itself. -/
theorem failure_traces_path {form : Form} {session later : Session} {failure : Failure}
    (h : form.Ends session (.error failure) later) :
    failure.fault.isSyntactic = false ∧
      match form with
      | .atom value =>
          failure.frames = [] ∧
            ∃ name, value = .symbol name ∧ failure.fault = .unboundSymbol name
      | .list elements =>
          failure.frames.getLast? = some (.list elements) ∧
            (failure.frames.IsChain fun inner outer =>
              inner ∈ outer.parts ∧ inner.StandsIn outer) ∧
            (failure.frames.Pairwise fun inner outer => inner.depth < outer.depth) ∧
            (∀ frame ∈ failure.frames,
              ∃ inner ∈ (list elements).lists, frame = .list inner) ∧
            failure.frames.length ≤ (list elements).depth ∧
            ∀ (i : Nat) (frame : Form), failure.frames[i]? = some frame → ∃ between,
              frame.Ends between (.error ⟨failure.fault, failure.frames.take (i + 1)⟩) later := by
  obtain ⟨turns, hend⟩ := h
  obtain ⟨hfault, htraces⟩ := trace_of_eval hend
  refine ⟨hfault, ?_⟩
  cases form with
  | atom value =>
      obtain ⟨name, rfl, rfl⟩ := atom_failed hend
      exact ⟨rfl, name, rfl, rfl⟩
  | list elements =>
      have htrace := htraces elements rfl
      have hdescends : failure.frames.IsChain fun inner outer => inner.depth < outer.depth :=
        htrace.isChain.imp fun _ _ hpart => hpart.2.depth_lt
      exact ⟨htrace.getLast?_eq, htrace.isChain, hdescends.pairwise,
        fun _ => htrace.mem_lists, htrace.length_le_depth, fun _ _ => htrace.failed_at⟩

/-- A fault below a binding: the frames step over the list of bindings. -/
theorem failure_traces_path_binding :
    let inner := list [symbol "if", symbol "y", number (.integer 1)]
    let middle := list [symbol "+", number (.integer 1), inner]
    let form := list [symbol "let", list [symbol "x", middle], symbol "x"]
    (∃ later, form.Ends (Session.start {})
      (.error ⟨.unboundSymbol "y", [inner, middle, form]⟩) later) ∧
      ([inner, middle, form].IsChain fun inner outer =>
        inner ∈ outer.parts ∧ inner.StandsIn outer) ∧
      [inner, middle, form].length ≤ form.depth := by
  intro inner middle form
  have hends : form.Ends (Session.start {})
      (.error ⟨.unboundSymbol "y", [inner, middle, form]⟩) (Session.start {}) := by
    refine ⟨0, ?_⟩
    simp only [form, middle, inner]
    rfl
  obtain ⟨-, -, hchain, -, -, hlength, -⟩ := failure_traces_path hends
  exact ⟨⟨_, hends⟩, hchain, hlength⟩

end Form

end FlatLisp
