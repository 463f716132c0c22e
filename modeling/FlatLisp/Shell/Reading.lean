/-!
What the shell reads: lines. A line ends with a newline or with the input; the
newline does not belong to it, nor does one carriage return right before it. A
last line without a newline is taken as it is, and if no bytes are left the
input has ended.
-/

namespace FlatLisp.Shell

inductive Reading where
  | line (text : String)
  /-- A line whose bytes are not UTF-8; it is used up all the same. -/
  | unreadable
  | ended
  deriving DecidableEq, Repr

def newline : UInt8 := 0x0a

def carriageReturn : UInt8 := 0x0d

def decode? (bytes : Array UInt8) : Option String :=
  String.fromUTF8? ⟨bytes⟩

def Reading.ofBytes (bytes : Array UInt8) : Reading :=
  match decode? bytes with
  | some text => .line text
  | none => .unreadable

def dropReturn (line : Array UInt8) : Array UInt8 :=
  if line.back? = some carriageReturn then line.pop else line

/-- The lines of an input whose first line starts with the given bytes. -/
def linesFrom (line : Array UInt8) : List UInt8 → List (Array UInt8)
  | [] => if line.isEmpty then [] else [line]
  | byte :: rest =>
      if byte = newline then dropReturn line :: linesFrom #[] rest
      else linesFrom (line.push byte) rest

def readings (input : Array UInt8) : List Reading :=
  (linesFrom #[] input.toList).map .ofBytes

end FlatLisp.Shell
