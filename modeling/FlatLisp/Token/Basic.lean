/-!
Tokens are the words of a source text: the two parentheses, quoted literals
and bare words. Whether a bare word is a number or a symbol is decided later,
from its text alone.
-/

namespace FlatLisp

inductive Token where
  | opening
  | closing
  /-- A quoted literal, with its quotes. -/
  | quoted (text : String)
  | word (text : String)
  deriving DecidableEq, Repr

def Token.text : Token → String
  | .opening => "("
  | .closing => ")"
  | .quoted text => text
  | .word text => text

/-- A run of characters without blanks: a parenthesis that stands alone is a
token of its own kind, anything else is a bare word. -/
def Token.ofWord (text : String) : Token :=
  if text = "(" then .opening else if text = ")" then .closing else .word text

end FlatLisp
