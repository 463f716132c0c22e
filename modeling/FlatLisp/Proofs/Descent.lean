import FlatLisp.Proofs.Locality

/-!
The parser as a recursive descent. The stack of open lists does the work of
calls that are still under way: behind an opening parenthesis the elements of
the list are read one by one, each like a form of its own, until the list is
closed.

The main statement is `parse_by_descent`.
-/

namespace FlatLisp.Form

/-- Reads on in a list of which some elements are known. An element is read by
`parse`; where that fails, the list fails in the same way. -/
def parseElements (elements : List Form) (tokens : List Token) : Parse :=
  match tokens with
  | [] => (.error .unmatchedOpen, [])
  | .closing :: rest => (.ok (some (.list elements)), rest)
  | token :: rest =>
      match h : parse (token :: rest) with
      | (.ok (some form), behind) =>
          have : behind.length < (token :: rest).length := length_lt_of_parseFrom h
          parseElements (elements ++ [form]) behind
      | stopped => stopped
termination_by tokens.length
decreasing_by assumption

def Step.inside (outer : List (List Form)) : Step → Step
  | .resume stack => .resume (stack ++ outer)
  | .complete form => deliver form outer
  | .fail fault => .fail fault

def Parse.inside (outer : List (List Form)) : Parse → Parse
  | (.ok (some form), rest) => parseBehind form outer rest
  | stopped => stopped

theorem Parse.inside_of_stopped {result : Parse}
    (h : ∀ form rest, result ≠ (.ok (some form), rest)) (outer : List (List Form)) :
    result.inside outer = result := by
  match result with
  | (.ok (some form), rest) => exact absurd rfl (h form rest)
  | (.ok none, rest) => rfl
  | (.error fault, rest) => rfl

theorem deliver_append (form : Form) (stack outer : List (List Form)) :
    deliver form (stack ++ outer) = (deliver form stack).inside outer := by
  cases stack <;> rfl

/-- Lists that are open around a stack take no part in a step inside the stack;
only a form that is complete there is handed to them. The exception is a closing
parenthesis with no list on the stack: by itself it is at fault, but with lists
around it, it closes one of those. -/
theorem step_append (stack outer : List (List Form)) {token : Token}
    (h : stack ≠ [] ∨ token ≠ .closing) :
    step (stack ++ outer) token = (step stack token).inside outer := by
  cases token with
  | opening => rfl
  | closing =>
      cases stack with
      | nil => simp at h
      | cons inner stack => exact deliver_append _ stack outer
  | quoted text | word text =>
      simp only [step]
      cases Atom.ofText text with
      | ok value => exact deliver_append _ stack outer
      | error fault => rfl

/-- What holds of one step holds of all: reading inside a stack goes on until
its form is complete, and then in the lists around it. -/
theorem parseFrom_append {stack : List (List Form)} (h : stack ≠ []) (outer : List (List Form))
    (tokens : List Token) :
    parseFrom (stack ++ outer) tokens = (parseFrom stack tokens).inside outer := by
  induction tokens generalizing stack with
  | nil => simp [parseFrom, h, Parse.inside]
  | cons token rest ih =>
      rw [parseFrom_cons, parseFrom_cons, step_append _ _ (.inl h)]
      cases hstep : step stack token with
      | resume next => exact ih (ne_nil_of_step hstep)
      | complete form => rfl
      | fail fault => rfl

/-- A form is read inside some lists as it is read outside of them, unless they
are closed before it starts. -/
theorem parseFrom_eq_inside {token : Token} (h : token ≠ .closing) (outer : List (List Form))
    (rest : List Token) :
    parseFrom outer (token :: rest) = (parse (token :: rest)).inside outer := by
  have hfirst : step outer token = (step [] token).inside outer := step_append [] outer (.inr h)
  rw [parse, parseFrom_cons, parseFrom_cons, hfirst]
  cases hstep : step [] token with
  | resume next => exact parseFrom_append (ne_nil_of_step hstep) outer rest
  | complete form => rfl
  | fail fault => rfl

/-- One open list on the stack is one call that reads its elements. -/
theorem parseFrom_singleton (elements : List Form) (tokens : List Token) :
    parseFrom [elements.reverse] tokens = parseElements elements tokens := by
  fun_induction parseElements elements tokens with
  | case1 => rfl
  | case2 elements rest => simp [parseFrom_cons, step, deliver]
  | case3 elements token rest hopen form behind hparse _ ih =>
      rw [parseFrom_eq_inside hopen, hparse, ← ih, List.reverse_append]
      rfl
  | case4 elements token rest hopen hstopped =>
      rw [parseFrom_eq_inside hopen, Parse.inside_of_stopped hstopped]

/-- Reading a form is a recursive descent over the tokens: an atom is read from
its own token, and an opening parenthesis starts a list, the elements of which
are read one by one. -/
theorem parse_by_descent (tokens : List Token) :
    parse tokens =
      match tokens with
      | [] => (.ok none, [])
      | .opening :: rest => parseElements [] rest
      | .closing :: rest => (.error .unmatchedClose, rest)
      | .quoted text :: rest | .word text :: rest =>
          ((Atom.ofText text).map fun value => some (.atom value), rest) := by
  match tokens with
  | [] => rfl
  | .opening :: rest => exact parseFrom_singleton [] rest
  | .closing :: rest => rfl
  | .quoted text :: rest | .word text :: rest =>
      simp only [parse, parseFrom_cons, step]
      cases Atom.ofText text with
      | ok value => rfl
      | error fault => rfl

end FlatLisp.Form
