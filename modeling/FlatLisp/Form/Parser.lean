import FlatLisp.Form.AtomReader
import FlatLisp.Token.Basic

/-!
Forms from tokens. The parser reads the tokens once from left to right and
keeps the lists that are still open on a stack, innermost first, each with its
elements in reverse. It stops behind the first complete form, or behind the
token at fault, and gives back the tokens that it has not read.
-/

namespace FlatLisp.Form

/-- What one token does to the stack of open lists: reading goes on with
another stack, a form is complete, or the token is at fault. -/
inductive Step where
  | resume (stack : List (List Form))
  | complete (form : Form)
  | fail (fault : Fault)

/-- Hands a finished form to the innermost open list; outside of all lists it
is the form that is read. -/
def deliver (form : Form) : List (List Form) → Step
  | [] => .complete form
  | inner :: outer => .resume ((form :: inner) :: outer)

def step (stack : List (List Form)) : Token → Step
  | .opening => .resume ([] :: stack)
  | .closing =>
      match stack with
      | [] => .fail .unmatchedClose
      | inner :: outer => deliver (.list inner.reverse) outer
  | .quoted text | .word text =>
      match Atom.ofText text with
      | .ok value => deliver (.atom value) stack
      | .error fault => .fail fault

abbrev Parse := Except Fault (Option Form) × List Token

/-- Reads on with a stack of open lists until the form is complete. -/
def parseFrom (stack : List (List Form)) : List Token → Parse
  | [] => (if stack.isEmpty then .ok none else .error .unmatchedOpen, [])
  | token :: rest =>
      match step stack token with
      | .resume next => parseFrom next rest
      | .complete form => (.ok (some form), rest)
      | .fail fault => (.error fault, rest)

/-- Reads the first form of a token sequence. There is none only if there are
no tokens. -/
def parse (tokens : List Token) : Parse :=
  parseFrom [] tokens

/-- A form takes at least one token. -/
theorem length_lt_of_parseFrom {stack : List (List Form)} {tokens rest : List Token} {form : Form}
    (h : parseFrom stack tokens = (.ok (some form), rest)) : rest.length < tokens.length := by
  induction tokens generalizing stack with
  | nil =>
      simp only [parseFrom] at h
      split at h <;> simp at h
  | cons token tokens ih =>
      simp only [parseFrom] at h
      split at h
      · exact Nat.lt_succ_of_lt (ih h)
      · simp_all
      · simp at h

def parseAll (tokens : List Token) : Except Fault (List Form) :=
  match h : parse tokens with
  | (.error fault, _) => .error fault
  | (.ok none, _) => .ok []
  | (.ok (some form), rest) =>
      have : rest.length < tokens.length := length_lt_of_parseFrom h
      (parseAll rest).map (form :: ·)
termination_by tokens.length

end FlatLisp.Form
