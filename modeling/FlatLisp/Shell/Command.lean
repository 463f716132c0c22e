import FlatLisp.Shell.Arguments
import FlatLisp.Shell.Report
import FlatLisp.Text.Quoted

/-!
The command line as a whole: arguments and input in, exit code and output out.
With a file the input is not read. A file that cannot be run is reported on
the error output; refused arguments get an exit code of their own.
-/

namespace FlatLisp.Shell

structure Completed where
  exitCode : UInt32
  output : Array UInt8 := #[]
  errors : String := ""
  deriving DecidableEq, Repr

def versionText : String := "minilisp REPL 0.1\n"

def helpText : String :=
  versionText ++
  "Single-session minilisp interpreter\n" ++
  "\n" ++
  "USAGE:\n" ++
  "    minilisp-repl [OPTIONS] [file]\n" ++
  "\n" ++
  "ARGS:\n" ++
  "    <file>    Source file to run instead of reading input\n" ++
  "\n" ++
  "OPTIONS:\n" ++
  "    -h, --help               Print help information\n" ++
  "        --no-color           Disable colored output\n" ++
  "    -p, --prompt <prompt>    Prompt shown before each expression [default: \"> \"]\n" ++
  "    -V, --version            Print version information\n"

def Options.apply (options : Options) (settings : Settings) : Settings :=
  { settings with
    prompt := options.prompt.getD settings.prompt
    color := settings.color && !options.noColor }

def errorReport (message : String) : String :=
  "Error: " ++ Text.quoted message ++ "\n"

def refusalText : String := "The arguments make no sense; --help tells which do.\n"

def refusalCode : UInt32 := 2

def failureCode : UInt32 := 1

/-- What there is to do for a request: to give an answer that is known at once,
to talk, or to run the file at a path. -/
inductive Task where
  | answer (completed : Completed)
  | talk (settings : Settings)
  | run (color : Bool) (path : String)
  deriving DecidableEq, Repr

def Request.task (settings : Settings) : Request → Task
  | .help => .answer { exitCode := 0, output := helpText.toUTF8.data }
  | .version => .answer { exitCode := 0, output := versionText.toUTF8.data }
  | .refuse => .answer { exitCode := refusalCode, errors := refusalText }
  | .start options =>
      let chosen := options.apply settings
      match options.file with
      | none => .talk chosen
      | some path => .run chosen.color path

def Completed.ofFile (color : Bool) (path : String) (content : Except String (Array UInt8)) :
    Completed :=
  match runFile color path content (.start {}) with
  | .ok session => { exitCode := 0, output := session.output.written }
  | .error message => { exitCode := failureCode, errors := errorReport message }

/-- Carries out a command. `readFile` gives the bytes at a path, or why they
cannot be read. -/
def execute (settings : Settings) (readFile : String → Except String (Array UInt8))
    (input : Array UInt8) (arguments : List String) : Completed :=
  match (Request.ofArguments arguments).task settings with
  | .answer completed => completed
  | .talk chosen =>
      let session := converse chosen (readings input) (.start {})
      { exitCode := 0, output := session.output.written }
  | .run color path => .ofFile color path (readFile path)

end FlatLisp.Shell
