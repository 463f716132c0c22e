import FlatLisp.Text.Blank
import FlatLisp.Token.Basic

/-!
The lexer first surrounds every parenthesis with blanks and then cuts the text
in one pass. Blanks end a bare word. A quote at the start of a token opens a
literal that runs through the next quote; a quote inside a bare word is an
ordinary character. A literal without its closing quote takes the rest of the
text, less the blanks at its end.

Since the blanks are put around parentheses before literals are looked for,
a parenthesis inside a literal gets them too.
-/

namespace FlatLisp.Token

open FlatLisp.Text (isBlank trimEnd)

def padChar (c : Char) : List Char :=
  if c = '(' ∨ c = ')' then [' ', c, ' '] else [c]

/-- Surrounds every parenthesis of a text with blanks. -/
def pad (text : List Char) : List Char :=
  text.flatMap padChar

/-- Where the lexer stands: between tokens, or inside one whose text so far it
carries along. -/
inductive Place where
  | between
  | inWord (text : String)
  | inQuoted (text : String)
  deriving DecidableEq, Repr

/-- Cuts a padded text into tokens, from a given place on. -/
def scan : Place → List Char → List Token
  | .between, [] => []
  | .inWord text, [] => [ofWord text]
  | .inQuoted text, [] => [.quoted (trimEnd text)]
  | .between, c :: rest =>
      if isBlank c then scan .between rest
      else if c = '"' then scan (.inQuoted "\"") rest
      else scan (.inWord (String.singleton c)) rest
  | .inWord text, c :: rest =>
      if isBlank c then ofWord text :: scan .between rest
      else scan (.inWord (text.push c)) rest
  | .inQuoted text, c :: rest =>
      if c = '"' then .quoted (text.push c) :: scan .between rest
      else scan (.inQuoted (text.push c)) rest

def lex (source : String) : List Token :=
  scan .between (pad source.toList)

/-- Padding works character by character. -/
theorem pad_append (first second : List Char) :
    pad (first ++ second) = pad first ++ pad second :=
  List.flatMap_append

end FlatLisp.Token
