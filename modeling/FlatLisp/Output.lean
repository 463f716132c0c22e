/-!
Where printed text goes. An output may have room for a limited number of
bytes. A write then stores what still fits and fails if that is not all of it,
so what is stored is always the beginning of what was to be printed. Writing
no bytes never fails.
-/

namespace FlatLisp

/-- The bytes written so far, and how much more is accepted. -/
structure Output where
  written : Array UInt8 := #[]
  /-- The number of bytes that are still accepted; `none` accepts all. -/
  room : Option Nat := none
  /-- Why a write fails for lack of room. -/
  fullMessage : String := "failed to write whole buffer"
  /-- Why flushing fails, if it does. -/
  flushFault : Option String := none
  deriving DecidableEq, Repr

namespace Output

/-- Writes some bytes; a failure is given by its message. -/
def writeBytes (bytes : Array UInt8) : EStateM String Output Unit := fun out =>
  match out.room with
  | none => .ok () { out with written := out.written ++ bytes }
  | some room =>
      if bytes.size ≤ room then
        .ok () { out with written := out.written ++ bytes, room := some (room - bytes.size) }
      else
        .error out.fullMessage
          { out with written := out.written ++ bytes.take room, room := some 0 }

def write (text : String) : EStateM String Output Unit :=
  writeBytes text.toUTF8.data

def flush : EStateM String Output Unit := fun out =>
  match out.flushFault with
  | none => .ok () out
  | some message => .error message out

def writeLine (text : String) : EStateM String Output Unit := do
  write text
  write "\n"
  flush

/-- Adds a text whatever room there is, as on a terminal. -/
def append (out : Output) (text : String) : Output :=
  { out with written := out.written ++ text.toUTF8.data }

end Output

end FlatLisp
