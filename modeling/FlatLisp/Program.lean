import FlatLisp.Eval
import FlatLisp.Form.Parser
import FlatLisp.Source.Comment
import FlatLisp.Token.Lexer

/-!
Programs are source texts with any number of forms. A program is read as a
whole before anything in it is evaluated, so one with a syntax fault changes
nothing.
-/

namespace FlatLisp.Program

def tokens (source : String) : List Token :=
  Token.lex (Source.stripComments source)

def forms (source : String) : Except Fault (List Form) :=
  Form.parseAll (tokens source)

/-- Evaluates all forms of a source text in order, up to the first failure. -/
def run (turns : Nat) (source : String) : Evaluation (List Value) := do
  Form.evalAll turns (← .ofExcept (forms source))

/-- Evaluates the first form of a source text, if it has any. What follows
that form is not read. -/
def evalFirst (turns : Nat) (source : String) : Evaluation (Option Value) := do
  match ← Evaluation.ofExcept (Form.parse (tokens source)).1 with
  | some form => some <$> form.eval turns
  | none => return none

end FlatLisp.Program
