import FlatLisp.Form.Basic
import FlatLisp.Number.Printer

/-!
The text of a form is source text: a quoted text in its quotes, and a list in
parentheses with one blank between its elements.
-/

namespace FlatLisp

def Atom.source : Atom → String
  | .number value => value.text
  | .text content => "\"" ++ content ++ "\""
  | .symbol name => name

namespace Form

mutual

def source : Form → String
  | .atom value => value.source
  | .list [] => "()"
  | .list (first :: rest) => "(" ++ first.source ++ sourceRest rest ++ ")"

def sourceRest : List Form → String
  | [] => ""
  | form :: rest => " " ++ form.source ++ sourceRest rest

end

end Form

end FlatLisp
