/-!
The nesting of a source text is the number of its opening parentheses minus
the number of its closing ones, both counted outside quoted literals. It is
positive while a text still waits for a closing parenthesis and negative when
one is left over. Comments are not skipped here: they are stripped before.
-/

namespace FlatLisp.Source

def parenWeight (c : Char) : Int :=
  if c = '(' then 1 else if c = ')' then -1 else 0

/-- The nesting of a text that starts inside a literal or outside of one. -/
def nestingFrom (inLiteral : Bool) : List Char → Int
  | [] => 0
  | c :: rest =>
      if c = '"' then nestingFrom (!inLiteral) rest
      else if inLiteral then nestingFrom inLiteral rest
      else parenWeight c + nestingFrom inLiteral rest

def nesting (source : String) : Int :=
  nestingFrom false source.toList

end FlatLisp.Source
