/-!
The arguments of the command line, read from left to right: at most one file,
a prompt, and a switch that turns colours off. Options may stand anywhere
before `--`. A request for help or the version is granted as soon as it is
met, and an argument that makes no sense is refused as soon as it is met;
whether an option came twice or lacks its value is looked at only in the end.
-/

namespace FlatLisp.Shell

structure Options where
  file : Option String := none
  prompt : Option String := none
  noColor : Bool := false
  deriving DecidableEq, Repr

inductive Request where
  | help
  | version
  | start (options : Options)
  | refuse
  deriving DecidableEq, Repr

namespace Arguments

structure State where
  file : Option String := none
  prompts : List String := []
  noColors : Nat := 0
  /-- The last option still waits for its value. -/
  waiting : Bool := false
  /-- Some option never got its value. -/
  lacking : Bool := false
  deriving DecidableEq, Repr

inductive Step where
  | resume (state : State)
  | finish (request : Request)
  deriving DecidableEq, Repr

def positional (state : State) (argument : String) : Step :=
  match state.file with
  | none => .resume { state with file := some argument }
  | some _ => .finish .refuse

def addPrompt (state : State) (value : List Char) : State :=
  { state with prompts := String.ofList value :: state.prompts, waiting := false }

/-- An option with a long name, and the value behind its equals sign. -/
def long (state : State) (name : String) (value : Option (List Char)) : Step :=
  match name, value with
  | "help", none => .finish .help
  | "version", none => .finish .version
  | "no-color", none => .resume { state with noColors := state.noColors + 1 }
  | "prompt", none => .resume { state with waiting := true }
  | "prompt", some value => .resume (addPrompt state value)
  | _, _ => .finish .refuse

/-- Options of one letter. A value is what follows the letter, less an equals
sign, or else the next argument. -/
def short (state : State) : List Char → Step
  | 'h' :: _ => .finish .help
  | 'V' :: _ => .finish .version
  | ['p'] => .resume { state with waiting := true }
  | 'p' :: '=' :: value => .resume (addPrompt state value)
  | 'p' :: value => .resume (addPrompt state value)
  | _ => .finish .refuse

def valueOf (argument : List Char) : Option (List Char) :=
  match argument.dropWhile (· != '=') with
  | [] => none
  | _ :: value => some value

/-- An argument that starts with a dash and is more than that. -/
def option (state : State) : List Char → Step
  | '-' :: argument =>
      long state (String.ofList (argument.takeWhile (· != '='))) (valueOf argument)
  | letters => short state letters

/-- All arguments behind `--` are positional. -/
def readPositionals (state : State) : List String → Step
  | [] => .resume state
  | argument :: rest =>
      match positional state argument with
      | .resume next => readPositionals next rest
      | .finish request => .finish request

/-- Reads the arguments. An option never serves as the value of another. -/
def read (state : State) : List String → Step
  | [] => .resume state
  | "--" :: rest => readPositionals { state with lacking := state.lacking || state.waiting } rest
  | argument :: rest =>
      let step :=
        match argument.toList with
        | '-' :: c :: more =>
            option { state with waiting := false, lacking := state.lacking || state.waiting }
              (c :: more)
        | value =>
            if state.waiting then .resume (addPrompt state value) else positional state argument
      match step with
      | .resume next => read next rest
      | .finish request => .finish request

/-- What remains to be checked when all arguments are read. -/
def State.request (state : State) : Request :=
  if state.waiting || state.lacking || 1 < state.prompts.length || 1 < state.noColors then .refuse
  else
    .start { file := state.file, prompt := state.prompts.head?, noColor := state.noColors = 1 }

end Arguments

def Request.ofArguments (arguments : List String) : Request :=
  match Arguments.read {} arguments with
  | .finish request => request
  | .resume state => state.request

end FlatLisp.Shell
