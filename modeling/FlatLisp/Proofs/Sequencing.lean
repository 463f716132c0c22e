import FlatLisp.Program
import FlatLisp.Proofs.Ending
import FlatLisp.Proofs.Lexing
import FlatLisp.Proofs.Stripping

/-!
Programs in pieces. A source text that is cut at a newline can be run piece by
piece, if no quoted literal is open at the cut: a comment ends with its line,
tokens and forms of the two sides do not touch, and evaluation goes from one
form to the next anyway. What each piece does, the order of their effects and
the failure that stops all later ones are those of the whole text.

A source text that cannot be read does nothing at all, be it run as a whole or
up to its first form.
-/

namespace FlatLisp

open Evaluation (bind_of_ok bind_of_error)

theorem Form.evalAll_append (turns : Nat) (first second : List Form) :
    evalAll turns (first ++ second) =
      (evalAll turns first >>= fun values => evalAll turns second >>= fun more =>
        pure (values ++ more)) := by
  induction first with
  | nil => simp [evalAll]
  | cons form rest ih => simp [evalAll, ih]

namespace Program

open Source (Region)

theorem tokens_eq_lexChars (source : String) :
    tokens source = Token.lexChars (Source.stripFrom .code source.toList) := by
  rw [tokens, Token.lex_eq_lexChars, Source.toList_stripComments]

theorem toList_append_newline (first second : String) :
    (first ++ "\n" ++ second).toList = first.toList ++ '\n' :: second.toList := by
  simp

/-- The tokens of two pieces are those of the whole text, if no literal is open
at the cut, neither for comments nor for the lexer. -/
theorem tokens_append_newline {first : String}
    (hregion : Region.after .code first.toList ≠ .literal)
    (hopen : ∀ token ∈ (tokens first).getLast?, token.isOpenLiteral = false) (second : String) :
    tokens (first ++ "\n" ++ second) = tokens first ++ tokens second := by
  have hblank : Text.isBlank '\n' = true := by decide
  rw [tokens_eq_lexChars] at hopen
  rw [tokens_eq_lexChars, toList_append_newline, Source.stripFrom_append_newline hregion,
    Token.lexChars_append_blank hblank hopen, ← tokens_eq_lexChars, ← tokens_eq_lexChars]

theorem run_of_forms {source : String} {given : List Form} (h : forms source = .ok given)
    (turns : Nat) : run turns source = Form.evalAll turns given := by
  rw [run, h]
  rfl

theorem run_of_fault {source : String} {fault : Fault} (h : forms source = .error fault)
    (turns : Nat) (session : Session) :
    run turns source session = .error (.failed { fault }) session := by
  rw [run, h]
  rfl

theorem evalFirst_of_fault {source : String} {fault : Fault}
    (h : (Form.parse (tokens source)).1 = .error fault) (turns : Nat) (session : Session) :
    evalFirst turns source session = .error (.failed { fault }) session := by
  rw [evalFirst, h]
  rfl

/-- The outcome of running one piece and then, if it succeeds, another one. -/
def runBoth (turns : Nat) (first second : String) (session : Session) :
    EStateM.Result Stop Session (List Value) :=
  match run turns first session with
  | .error stop later => .error stop later
  | .ok values between =>
      match run turns second between with
      | .error stop later => .error stop later
      | .ok more later => .ok (values ++ more) later

/-- Running both pieces is a composition of actions, so it can be compared with
running the forms of the whole text. -/
theorem runBoth_eq_bind (turns : Nat) (first second : String) (session : Session) :
    runBoth turns first second session =
      (run turns first >>= fun values => run turns second >>= fun more =>
        pure (values ++ more)) session := by
  cases hfirst : run turns first session with
  | error stop later => rw [runBoth, hfirst, bind_of_error hfirst]
  | ok values between =>
      rw [bind_of_ok hfirst]
      cases hsecond : run turns second between with
      | error stop later =>
          rw [bind_of_error hsecond]
          simp only [runBoth, hfirst, hsecond]
      | ok more later =>
          rw [bind_of_ok hsecond]
          simp only [runBoth, hfirst, hsecond]
          rfl

/-- If both pieces can be read, running the whole text is running one piece
after the other. -/
theorem run_append_newline {first second : String}
    (hregion : Region.after .code first.toList ≠ .literal)
    (hopen : ∀ token ∈ (tokens first).getLast?, token.isOpenLiteral = false)
    {formsFirst formsSecond : List Form} (hfirst : forms first = .ok formsFirst)
    (hsecond : forms second = .ok formsSecond) (turns : Nat) (session : Session) :
    run turns (first ++ "\n" ++ second) session = runBoth turns first second session := by
  have hforms : forms (first ++ "\n" ++ second) = .ok (formsFirst ++ formsSecond) := by
    unfold forms at hfirst hsecond ⊢
    rw [tokens_append_newline hregion hopen, Form.parseAll_append hfirst, hsecond]
    rfl
  rw [runBoth_eq_bind, run_of_forms hforms, run_of_forms hfirst, run_of_forms hsecond,
    Form.evalAll_append]

/-- A source text that is cut at a newline outside of literals runs as its two
pieces run one after the other; in particular a comment in front of the cut
stays there. A source text that cannot be read fails with a syntax fault, and
if it is its first form that cannot be read then evaluating just that form
fails with the same fault. The session is left as it was in either case. -/
theorem run_in_pieces (turns : Nat) (session : Session) :
    (∀ first second : String, Region.after .code first.toList ≠ .literal →
      Source.stripComments (first ++ "\n" ++ second) =
        Source.stripComments first ++ "\n" ++ Source.stripComments second ∧
      ((∀ token ∈ (tokens first).getLast?, token.isOpenLiteral = false) →
        ∀ formsFirst formsSecond, forms first = .ok formsFirst → forms second = .ok formsSecond →
          run turns (first ++ "\n" ++ second) session = runBoth turns first second session)) ∧
    (∀ (source : String) (fault : Fault), forms source = .error fault →
      fault.isSyntactic = true ∧ run turns source session = .error (.failed { fault }) session) ∧
    ∀ (source : String) (fault : Fault), (Form.parse (tokens source)).1 = .error fault →
      evalFirst turns source session = .error (.failed { fault }) session ∧
        run turns source session = .error (.failed { fault }) session := by
  refine ⟨?_, ?_, ?_⟩
  · intro first second hregion
    constructor
    · apply String.toList_inj.mp
      rw [Source.toList_stripComments, toList_append_newline, toList_append_newline,
        Source.stripFrom_append_newline hregion, Source.toList_stripComments,
        Source.toList_stripComments]
    · intro hopen formsFirst formsSecond hfirst hsecond
      exact run_append_newline hregion hopen hfirst hsecond turns session
  · intro source fault hfault
    exact ⟨Form.isSyntactic_of_parseAll_error hfault, run_of_fault hfault turns session⟩
  · intro source fault hfault
    have hforms : forms source = .error fault := Form.parseAll_of_parse_error hfault
    exact ⟨evalFirst_of_fault hfault turns session, run_of_fault hforms turns session⟩

/-- A piece that prints, binds and ends in a comment with a quote in it, one
that fails, and a source text whose first form cannot be read. -/
theorem run_in_pieces_comment :
    let first := "(print (let (x 1) x)) ; say \"x"
    let second := "x (+ x y)"
    let session := Session.start {}
    run 0 (first ++ "\n" ++ second) session = runBoth 0 first second session ∧
      (∃ failure later, runBoth 0 first second session = .error (.failed failure) later ∧
        failure.fault = .unboundSymbol "y" ∧ later.output.written = "1\n".toUTF8.data) ∧
      evalFirst 0 ") 1" session = .error (.failed { fault := .unmatchedClose }) session := by
  intro first second session
  have hregion : Region.after .code first.toList ≠ .literal := by decide +kernel
  have hopen : ∀ token ∈ (tokens first).getLast?, token.isOpenLiteral = false := by
    decide +kernel
  have hfirst : forms first = .ok [.list [.symbol "print", .list [.symbol "let",
      .list [.symbol "x", .number (.integer 1)], .symbol "x"]]] := by
    exact Form.parseAll_of_spell (by decide +kernel)
  have hsecond : forms second =
      .ok [.symbol "x", .list [.symbol "+", .symbol "x", .symbol "y"]] := by
    exact Form.parseAll_of_spell (by decide +kernel)
  have hfault : (Form.parse (tokens ") 1")).1 = .error .unmatchedClose := by decide +kernel
  obtain ⟨hpieces, -, hunread⟩ := run_in_pieces 0 session
  refine ⟨(hpieces first second hregion).2 hopen _ _ hfirst hsecond, ?_, (hunread _ _ hfault).1⟩
  rw [runBoth_eq_bind, run_of_forms hfirst, run_of_forms hsecond]
  exact ⟨_, _, rfl, rfl, rfl⟩

end Program

end FlatLisp
