import FlatLisp.Shell.Reading
import FlatLisp.Source.Comment
import FlatLisp.Source.Nesting
import FlatLisp.Text.Blank

/-!
The dialogue of the interactive shell cuts the lines it reads into units. A
line that is blank apart from a comment is passed over and the word `exit`
ends the dialogue. Any other line starts a block, which takes in further lines,
whatever they say, as long as it has more opening than closing parentheses.
Comments are stripped line by line, and the lines of a block are joined by
blanks. When the input ends, or a line cannot be read, the block in progress is
dropped.
-/

namespace FlatLisp.Shell

structure Settings where
  prompt : String := "> "
  showPrompt : Bool := false
  color : Bool := false
  deriving DecidableEq, Repr

inductive Reaction where
  /-- Reads on, inside a block or outside of one. -/
  | wait (block : Option String)
  | submit (unit : String)
  /-- Says why a line could not be read, and reads on outside of a block. -/
  | complain (message : String)
  | leave (message : String)
  deriving DecidableEq, Repr

/-- Submits a block as soon as it is not waiting for a parenthesis. -/
def gather (block : String) : Reaction :=
  if 0 < Source.nesting block then .wait (some block) else .submit block

def farewell : String := "Exiting REPL...\n"

def unreadableMessage : String :=
  "[Readline Error]: Io(Error \x7b kind: InvalidData, message: " ++
    "\"stream did not contain valid UTF-8\" \x7d)\n\n"

def react : Option String → Reading → Reaction
  | _, .ended => .leave ("^D\n" ++ farewell)
  | _, .unreadable => .complain unreadableMessage
  | some block, .line text => gather (block ++ " " ++ Source.stripComments text)
  | none, .line text =>
      let stripped := Source.stripComments text
      let word := Text.trim stripped
      if word = "" then .wait none
      else if word = "exit" then .leave farewell
      else gather stripped

/-- What happens in a dialogue, as far as others notice. -/
inductive Event where
  | say (text : String)
  | submit (unit : String)
  deriving DecidableEq, Repr

def Reaction.events : Reaction → List Event
  | .wait _ => []
  | .submit unit => [.submit unit]
  | .complain message => [.say message]
  | .leave message => [.say message]

/-- The block with which the dialogue goes on, if it does. -/
def Reaction.next? : Reaction → Option (Option String)
  | .wait block => some block
  | .submit _ => some none
  | .complain _ => some none
  | .leave _ => none

/-- The prompt inside a block is indented by its nesting. -/
def promptText (settings : Settings) : Option String → String
  | none => settings.prompt
  | some block => ".." ++ String.join (List.replicate (Source.nesting block).toNat "  ")

def promptEvents (settings : Settings) (block : Option String) : List Event :=
  if settings.showPrompt then [.say (promptText settings block)] else []

/-- The events of a dialogue that goes on with a block and some readings; after
the last of them the input has ended. -/
def dialogue (settings : Settings) : Option String → List Reading → List Event
  | block, [] => promptEvents settings block ++ (react block .ended).events
  | block, reading :: rest =>
      let reaction := react block reading
      promptEvents settings block ++ reaction.events ++
        match reaction.next? with
        | some next => dialogue settings next rest
        | none => []

def Event.unit? : Event → Option String
  | .say _ => none
  | .submit unit => some unit

def Event.said? : Event → Option String
  | .say text => some text
  | .submit _ => none

def units (settings : Settings) (readings : List Reading) : List String :=
  (dialogue settings none readings).filterMap Event.unit?

def messages (settings : Settings) (readings : List Reading) : String :=
  String.join ((dialogue settings none readings).filterMap Event.said?)

end FlatLisp.Shell
