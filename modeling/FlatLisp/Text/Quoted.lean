import FlatLisp.Text.Extending
import FlatLisp.Text.Ignorable
import FlatLisp.Text.Unprintable

/-!
Quoted text for messages: in double quotes, with the quote and the backslash
escaped, and with an escape for every character that would not be visible on
its own.
-/

namespace FlatLisp.Text

def numberedEscape (c : Char) : List Char :=
  '\\' :: 'u' :: '\x7b' :: Nat.toDigits 16 c.toNat ++ ['\x7d']

/-- Whether a character might not be seen, or not as itself, between quotes. -/
def isHidden (c : Char) : Bool :=
  isExtending c || isIgnorable c || isUnprintable c

def escape (c : Char) : List Char :=
  match c with
  | '"' => ['\\', '"']
  | '\\' => ['\\', '\\']
  | '\n' => ['\\', 'n']
  | '\r' => ['\\', 'r']
  | '\t' => ['\\', 't']
  | '\x00' => ['\\', '0']
  | c => if isHidden c then numberedEscape c else [c]

def quoted (text : String) : String :=
  String.ofList ('"' :: text.toList.flatMap escape ++ ['"'])

def quotedList (texts : List String) : String :=
  "[" ++ String.intercalate ", " (texts.map quoted) ++ "]"

end FlatLisp.Text
