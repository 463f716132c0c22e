/-!
The procedures that a session starts with, each known by one name.
-/

namespace FlatLisp

inductive Builtin where
  | add
  | sub
  | mul
  | div
  | less
  | greater
  | print
  deriving DecidableEq, Repr

namespace Builtin

def all : List Builtin := [.add, .sub, .mul, .div, .less, .greater, .print]

def name : Builtin → String
  | .add => "+"
  | .sub => "-"
  | .mul => "*"
  | .div => "/"
  | .less => "<"
  | .greater => ">"
  | .print => "print"

end Builtin

end FlatLisp
