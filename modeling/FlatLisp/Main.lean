import FlatLisp.Shell.Command

/-!
The program: arguments and standard input go to the shell, and what it says
goes to standard output at once. Prompts are shown and colours are on when
there is a terminal.
-/

namespace FlatLisp

def systemErrorText (details : String) : Nat → String
  | 2 => "No such file or directory"
  | 13 => "Permission denied"
  | 20 => "Not a directory"
  | 21 => "Is a directory"
  | 36 => "File name too long"
  | _ => details

/-- Why the system cannot read a file. Some parts of the system give the number
of an error with a minus. -/
def systemReason : IO.Error → String
  | .noFileOrDirectory _ code details
  | .inappropriateType _ code details
  | .permissionDenied _ code details
  | .invalidArgument _ code details =>
      let number := min code.toNat (-code).toNat
      systemErrorText details number ++ " (os error " ++ toString number ++ ")"
  | other => toString other

/-- Writes what a session has to say and takes it off the session. -/
def emit (session : Session) : IO Session := do
  let out ← IO.getStdout
  out.write ⟨session.output.written⟩
  out.flush
  return { session with output := {} }

partial def readLine (line : Array UInt8) : IO (Array UInt8) := do
  match (← (← IO.getStdin).read 1).data[0]? with
  | none => return line
  | some byte => if byte = Shell.newline then return line.push byte else readLine (line.push byte)

partial def talk (settings : Shell.Settings) (block : Option String) (session : Session) :
    IO Unit := do
  let session ← emit ((Shell.promptEvents settings block).foldl (Shell.handle settings) session)
  let reading := (Shell.readings (← readLine #[])).headD .ended
  let reaction := Shell.react block reading
  let session ← emit (reaction.events.foldl (Shell.handle settings) session)
  if let some next := reaction.next? then
    talk settings next session

def readBytes (path : String) : IO (Except String (Array UInt8)) := do
  try
    return .ok (← IO.FS.readBinFile path).data
  catch reason =>
    return .error (systemReason reason)

def finish (completed : Shell.Completed) : IO UInt32 := do
  (← IO.getStdout).write ⟨completed.output⟩
  IO.eprint completed.errors
  return completed.exitCode

end FlatLisp

open FlatLisp in
def main (arguments : List String) : IO UInt32 := do
  let settings : Shell.Settings :=
    { showPrompt := ← (← IO.getStdin).isTty, color := ← (← IO.getStdout).isTty }
  match (Shell.Request.ofArguments arguments).task settings with
  | .answer completed => finish completed
  | .talk chosen =>
      talk chosen none (.start {})
      return 0
  | .run color path => finish (.ofFile color path (← readBytes path))
