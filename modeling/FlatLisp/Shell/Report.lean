import FlatLisp.Program
import FlatLisp.Shell.Dialogue
import FlatLisp.Shell.Style

/-!
The two ways to use the shell. In a dialogue each unit is evaluated and
answered by its value or its failure. A file is read as a whole; then each of
its forms is echoed, evaluated and answered, with a blank line behind it.
Either goes on after a failure. What the shell says and what the programs
print goes to the same output, in order.
-/

namespace FlatLisp.Shell

def say (session : Session) (text : String) : Session :=
  { session with output := session.output.append text }

/-- The line that answers a value; `nil` is not worth one. -/
def answerText (value : Value) : String :=
  if value.isNil then "" else "-> " ++ value.echo ++ "\n"

def failureText (color : Bool) (failure : Failure) : String :=
  " " ++ Style.red.paint (terminalCodes color) failure.message ++ "\n"

def answer (color : Bool) (action : Evaluation (Option Value)) (session : Session) : Session :=
  match action session with
  | .ok (some value) later => say later (answerText value)
  | .ok none later => later
  | .error (.failed failure) later => say later (failureText color failure)
  | .error .unfinished later => later

def handle (settings : Settings) (session : Session) : Event → Session
  | .say text => say session text
  | .submit unit => answer settings.color (Program.evalFirst Form.maxTurns unit) session

def converse (settings : Settings) (readings : List Reading) (session : Session) : Session :=
  (dialogue settings none readings).foldl (handle settings) session

def echoLine (color : Bool) (form : Form) : String :=
  let codes := terminalCodes color
  Style.bold.paint codes ">" ++ " " ++ colored codes 0 form ++ "\n"

/-- Echoes, evaluates and answers one form of a file. -/
def runForm (color : Bool) (session : Session) (form : Form) : Session :=
  say (answer color (some <$> form.eval Form.maxTurns) (say session (echoLine color form))) "\n"

/-- The forms of a file, or why it cannot be run. Reading it has given its
bytes or the reason why it cannot be read. -/
def fileForms (path : String) (content : Except String (Array UInt8)) :
    Except String (List Form) :=
  match content with
  | .error reason => .error (path ++ ": " ++ reason)
  | .ok bytes =>
      match decode? bytes with
      | none => .error (path ++ ": stream did not contain valid UTF-8")
      | some source => (Program.forms source).mapError Fault.message

def runFile (color : Bool) (path : String) (content : Except String (Array UInt8))
    (session : Session) : Except String Session :=
  (fileForms path content).map (·.foldl (runForm color) session)

end FlatLisp.Shell
