import FlatLisp.Proofs.Ending
import FlatLisp.Shell.Report

/-!
What is written before an evaluation has no influence on it: it goes the same
way behind any bytes, and adds the same bytes to them. So the replies of the
shell to some forms, and the environments that they leave, do not depend on
what the shell says in between.
-/

namespace FlatLisp

def mapState {ε σ α : Type} (change : σ → σ) : EStateM.Result ε σ α → EStateM.Result ε σ α
  | .ok value state => .ok value (change state)
  | .error stop state => .error stop (change state)

/-- It makes no difference whether a change comes before an action or after
it. -/
def Commutes {ε σ α : Type} (change : σ → σ) (action : EStateM ε σ α) : Prop :=
  ∀ state, action (change state) = mapState change (action state)

/-- A change that commutes with both parts of an action commutes with the
action. -/
theorem commutes_bind {ε σ α β : Type} {change : σ → σ} {x : EStateM ε σ α} {f : α → EStateM ε σ β}
    (hx : Commutes change x) (hf : ∀ value, Commutes change (f value)) :
    Commutes change (x >>= f) := by
  intro state
  cases hfirst : x state with
  | ok value between =>
      have hchanged : x (change state) = .ok value (change between) := by
        rw [hx, hfirst]
        rfl
      rw [Evaluation.bind_of_ok hfirst, Evaluation.bind_of_ok hchanged, hf]
  | error stop between =>
      have hchanged : x (change state) = .error stop (change between) := by
        rw [hx, hfirst]
        rfl
      rw [Evaluation.bind_of_error hfirst, Evaluation.bind_of_error hchanged]
      rfl

def Output.behind (bytes : Array UInt8) (out : Output) : Output :=
  { out with written := bytes ++ out.written }

def Session.behind (bytes : Array UInt8) (session : Session) : Session :=
  { session with output := session.output.behind bytes }

namespace Output

/-- Earlier bytes do not change what fits: room is counted for what is still to
come. -/
theorem commutes_writeBytes (earlier bytes : Array UInt8) :
    Commutes (behind earlier) (writeBytes bytes) := by
  intro out
  unfold writeBytes behind
  cases out.room with
  | none => simp [mapState, Array.append_assoc]
  | some room =>
      by_cases hfits : bytes.size ≤ room
      · simp [hfits, mapState, Array.append_assoc]
      · simp [hfits, mapState, Array.append_assoc]

theorem commutes_flush (earlier : Array UInt8) : Commutes (behind earlier) flush := by
  rintro ⟨written, room, fullMessage, flushFault⟩
  cases flushFault <;> rfl

theorem commutes_writeLine (earlier : Array UInt8) (text : String) :
    Commutes (behind earlier) (writeLine text) :=
  commutes_bind (commutes_writeBytes _ _) fun _ =>
    commutes_bind (commutes_writeBytes _ _) fun _ => commutes_flush _

end Output

namespace Evaluation

theorem commutes_of_quiet {α : Type} {x : Evaluation α} (h : Quiet x) (bytes : Array UInt8) :
    Commutes (Session.behind bytes) x := by
  rintro ⟨environment, output⟩
  obtain ⟨result, later, hx⟩ := h environment
  rw [hx]
  refine (hx _).trans ?_
  cases result <;> rfl

theorem commutes_printLine (bytes : Array UInt8) (text : String) :
    Commutes (Session.behind bytes) (printLine text) := by
  intro session
  have hwrite := Output.commutes_writeLine bytes text session.output
  simp only [printLine, Session.behind]
  rw [hwrite]
  cases Output.writeLine text session.output <;> rfl

theorem commutes_within {α : Type} {change : Session → Session} {x : Evaluation α} (form : Form)
    (hx : Commutes change x) : Commutes change (within form x) := by
  intro session
  unfold within
  rw [hx]
  cases x session with
  | ok value later => rfl
  | error stop later => cases stop <;> rfl

/-- Whether a change of the session commutes with composed actions hangs on
printing alone. -/
theorem congruence_commutes {change : Session → Session}
    (hprint : ∀ text, Commutes change (printLine text)) :
    Congruence fun _ x _ => Commutes change x where
  pure _ := fun _ => rfl
  bind := commutes_bind
  fail _ := fun _ => rfl
  within form _ _ := commutes_within form
  printLine := hprint

end Evaluation

open Evaluation

/-- An evaluation does not look at what is written before. -/
theorem Form.eval_commutes (form : Form) (turns : Nat) (bytes : Array UInt8) :
    Commutes (Session.behind bytes) (form.eval turns) :=
  eval_congr (congruence_commutes (commutes_printLine bytes)) (Nat.le_refl turns) form
    { lookup := fun name _ => commutes_of_quiet (quiet_lookup name) bytes
      assign := fun name _ value => commutes_of_quiet (quiet_assign name value) bytes
      setCounter := fun _ _ => commutes_of_quiet (quiet_assign _ _) bytes
      unfinished := fun _ _ _ _ => rfl }

def Session.cleared (session : Session) : Session :=
  { session with output := { session.output with written := #[] } }

def Session.added (earlier later : Session) : Array UInt8 :=
  later.output.written.extract earlier.output.written.size

namespace Session

theorem eq_behind (session : Session) :
    session = session.cleared.behind session.output.written := by
  simp [behind, cleared, Output.behind]

@[simp] theorem cleared_behind (bytes : Array UInt8) (session : Session) :
    (session.behind bytes).cleared = session.cleared := rfl

@[simp] theorem written_behind (bytes : Array UInt8) (session : Session) :
    (session.behind bytes).output.written = bytes ++ session.output.written := rfl

@[simp] theorem environment_cleared (session : Session) :
    session.cleared.environment = session.environment := rfl

end Session

namespace Shell

@[simp] theorem cleared_say (session : Session) (text : String) :
    (say session text).cleared = session.cleared := rfl

theorem written_say (session : Session) (text : String) :
    (say session text).output.written = session.output.written ++ text.toUTF8.data := rfl

theorem say_behind (bytes : Array UInt8) (session : Session) (text : String) :
    say (session.behind bytes) text = (say session text).behind bytes := by
  simp [say, Session.behind, Output.behind, Output.append, Array.append_assoc]

/-- An answer depends on what was written before no more than the evaluation
does. -/
theorem answer_behind (color : Bool) {action : Evaluation (Option Value)} {bytes : Array UInt8}
    (h : Commutes (Session.behind bytes) action) (session : Session) :
    answer color action (session.behind bytes) = (answer color action session).behind bytes := by
  unfold answer
  rw [h]
  cases action session with
  | ok result later =>
      cases result with
      | none => rfl
      | some value => exact say_behind bytes later _
  | error stop later =>
      cases stop with
      | failed failure => exact say_behind bytes later _
      | unfinished => rfl

def answerForm (color : Bool) (form : Form) (session : Session) : Session :=
  answer color (some <$> form.eval Form.maxTurns) session

/-- A form can be answered on an empty page, and what was written before put in
front. -/
theorem answerForm_eq_behind (color : Bool) (form : Form) (session : Session) :
    answerForm color form session =
      (answerForm color form session.cleared).behind session.output.written := by
  have hcommutes : Commutes (Session.behind session.output.written)
      (some <$> form.eval Form.maxTurns) :=
    commutes_bind (form.eval_commutes _ _) fun _ => commutes_of_quiet (quiet_pure _) _
  have hanswer := answer_behind color hcommutes session.cleared
  rw [← Session.eq_behind] at hanswer
  exact hanswer

theorem cleared_answerForm (color : Bool) (form : Form) (session : Session) :
    (answerForm color form session).cleared = (answerForm color form session.cleared).cleared := by
  rw [answerForm_eq_behind, Session.cleared_behind]

theorem written_answerForm (color : Bool) (form : Form) (session : Session) :
    (answerForm color form session).output.written = session.output.written ++
      session.added (answerForm color form session) := by
  rw [Session.added, answerForm_eq_behind, Session.written_behind, Array.extract_append]
  simp

theorem added_answerForm (color : Bool) (form : Form) (session : Session) :
    session.added (answerForm color form session) =
      (answerForm color form session.cleared).output.written := by
  have hwritten := written_answerForm color form session
  rw [answerForm_eq_behind, Session.written_behind, ← answerForm_eq_behind] at hwritten
  exact (Array.append_right_inj _).mp hwritten.symm

/-- A unit with just one form is handled by answering that form. -/
theorem handle_submit {unit : String} {form : Form}
    (h : Form.parse (Program.tokens unit) = (.ok (some form), [])) (settings : Settings)
    (session : Session) :
    handle settings session (.submit unit) = answerForm settings.color form session := by
  rw [handle, Program.evalFirst, h]
  rfl

theorem runForm_eq (color : Bool) (session : Session) (form : Form) :
    runForm color session form =
      say (answerForm color form (say session (echoLine color form))) "\n" := rfl

/-- What a dialogue writes for each of the units that are submitted. -/
def replies (settings : Settings) : Session → List Event → List (Array UInt8)
  | _, [] => []
  | session, .say text :: rest => replies settings (handle settings session (.say text)) rest
  | session, .submit unit :: rest =>
      let later := handle settings session (.submit unit)
      session.added later :: replies settings later rest

/-- What a file writes for each of its forms, between its echo and the blank
line behind it. -/
def fileReplies (color : Bool) : Session → List Form → List (Array UInt8)
  | _, [] => []
  | session, form :: rest =>
      let echoed := say session (echoLine color form)
      echoed.added (answerForm color form echoed) ::
        fileReplies color (runForm color session form) rest

def fileTranscript (color : Bool) : List Form → List (Array UInt8) → Array UInt8
  | form :: forms, reply :: replies =>
      (echoLine color form).toUTF8.data ++ reply ++ "\n".toUTF8.data ++
        fileTranscript color forms replies
  | _, _ => #[]

/-- A file writes an echo, the reply and a blank line for each of its forms. -/
theorem written_foldl_runForm (color : Bool) (forms : List Form) (session : Session) :
    (forms.foldl (runForm color) session).output.written =
      session.output.written ++ fileTranscript color forms (fileReplies color session forms) := by
  induction forms generalizing session with
  | nil => simp [fileTranscript]
  | cons form rest ih =>
      rw [List.foldl_cons, ih, fileReplies, fileTranscript]
      have hform : (runForm color session form).output.written = session.output.written ++
          (echoLine color form).toUTF8.data ++
          (say session (echoLine color form)).added
            (answerForm color form (say session (echoLine color form))) ++ "\n".toUTF8.data := by
        rw [runForm_eq, written_say, written_answerForm, written_say]
      rw [hform]
      simp only [Array.append_assoc]

theorem cleared_runForm (color : Bool) (session : Session) (form : Form) :
    (runForm color session form).cleared = (answerForm color form session.cleared).cleared := by
  rw [runForm_eq, cleared_say, cleared_answerForm, cleared_say]

def parses (events : List Event) : List Form.Parse :=
  (events.filterMap Event.unit?).map fun unit => Form.parse (Program.tokens unit)

/-- The replies to units that are one form each are the replies of a file with
these forms. Both start from sessions that differ only in what they have
written, and after each form they do so again. -/
theorem replies_agree (settings : Settings) {events : List Event} {forms : List Form}
    (h : parses events = forms.map fun form => (.ok (some form), [])) {session other : Session}
    (hsame : session.cleared = other.cleared) :
    replies settings session events = fileReplies settings.color other forms ∧
      (events.foldl (handle settings) session).cleared =
        (forms.foldl (runForm settings.color) other).cleared := by
  induction events generalizing forms session other with
  | nil =>
      obtain rfl : forms = [] := List.map_eq_nil_iff.mp h.symm
      exact ⟨rfl, hsame⟩
  | cons event rest ih =>
      cases event with
      | say text => exact ih h hsame
      | submit unit =>
          cases forms with
          | nil => cases h
          | cons form forms =>
              obtain ⟨hunit, hrest⟩ := List.cons.inj h
              have hhandle := handle_submit hunit settings session
              have hcleared : (handle settings session (.submit unit)).cleared =
                  (runForm settings.color other form).cleared := by
                rw [hhandle, cleared_answerForm, hsame, cleared_runForm]
              obtain ⟨hreplies, hlater⟩ := ih hrest hcleared
              rw [List.foldl_cons, List.foldl_cons]
              refine ⟨?_, hlater⟩
              rw [replies, fileReplies, hreplies, hhandle, added_answerForm, added_answerForm,
                hsame, cleared_say]

end Shell

end FlatLisp
