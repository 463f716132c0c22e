import FlatLisp.Form.Printer

/-!
Styles of a terminal. A styled text stands between two codes that the terminal
understands. A reset inside the text would end the style early, so the first code
is set again behind it. Without codes a text is left as it is. Which codes there
are is up to the terminal; the shell has those of one with every colour.

A form is echoed with coloured parentheses: the two parentheses of a list have
the same colour, and the colours repeat every six levels of nesting.
-/

namespace FlatLisp.Shell

inductive Style where
  | bold
  | red
  | rgb (r g b : Nat)
  deriving DecidableEq, Repr

namespace Style

/-- What a terminal is sent before a text in a style, and what behind it. -/
structure Codes where
  before : Style → List Char
  behind : Style → List Char

def reset : List Char := "\x1b[0m".toList

/-- The codes of a terminal that has every colour. -/
def Codes.ansi : Codes where
  before
    | .bold => "\x1b[1m".toList
    | .red => "\x1b[31m".toList
    | .rgb r g b =>
        "\x1b[38;2;".toList ++ Nat.toDigits 10 r ++ ';' :: Nat.toDigits 10 g ++
          ';' :: Nat.toDigits 10 b ++ ['m']
  behind _ := reset

/-- Sets a style again behind every reset of a text. -/
def reopen (code : List Char) : List Char → List Char
  | '\x1b' :: '[' :: '0' :: 'm' :: rest => reset ++ code ++ reopen code rest
  | c :: rest => c :: reopen code rest
  | [] => []

def paint (style : Style) (codes : Option Codes) (text : String) : String :=
  match codes with
  | none => text
  | some codes =>
      String.ofList
        (codes.before style ++ reopen (codes.before style) text.toList ++ codes.behind style)

def ofDepth (depth : Nat) : Style :=
  match depth % 6 with
  | 0 => .rgb 0 255 204
  | 1 => .rgb 204 51 0
  | 2 => .rgb 153 255 102
  | 3 => .rgb 153 102 255
  | 4 => .rgb 255 255 102
  | _ => .rgb 255 179 179

end Style

def parens (codes : Option Style.Codes) (depth : Nat) (inner : String) : String :=
  (Style.ofDepth depth).paint codes "(" ++ inner ++ (Style.ofDepth depth).paint codes ")"

mutual

/-- The source text of a form with coloured parentheses, from a depth on. -/
def colored (codes : Option Style.Codes) (depth : Nat) : Form → String
  | .atom value => value.source
  | .list [] => parens codes depth ""
  | .list (first :: rest) =>
      parens codes depth (colored codes (depth + 1) first ++ coloredRest codes (depth + 1) rest)

def coloredRest (codes : Option Style.Codes) (depth : Nat) : List Form → String
  | [] => ""
  | form :: rest => " " ++ colored codes depth form ++ coloredRest codes depth rest

end

/-- The codes that the shell sends, if colours are on. -/
def terminalCodes (color : Bool) : Option Style.Codes :=
  if color then some .ansi else none

end FlatLisp.Shell
