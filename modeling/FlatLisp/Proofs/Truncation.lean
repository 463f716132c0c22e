import FlatLisp.Program
import FlatLisp.Proofs.Footprint

/-!
Evaluation into an output that fills up. A limit on the output changes nothing
as long as all that is printed fits. The first line that does not fit ends the
evaluation, and what has been stored by then is the beginning of what would
have been printed without the limit, cut at any byte, be it inside a line or
between a line and its newline.

The comparison is made between an action under a limit and the same action
without one. Once the limited side has failed the other one goes on, so it has
to be known as well that going on only ever adds to the output.
-/

namespace FlatLisp

open Evaluation (conclude bind_of_ok bind_of_error)

theorem take_append_of_le {α : Type} (first second : Array α) {limit : Nat}
    (h : limit ≤ first.size) : (first ++ second).take limit = first.take limit := by
  have hnone : limit - first.size = 0 := by omega
  simp [Array.take, Array.extract_append, hnone]

theorem take_append_of_size_le {α : Type} (first second : Array α) {limit : Nat}
    (h : first.size ≤ limit) :
    (first ++ second).take limit = first ++ second.take (limit - first.size) := by
  simp [Array.take, Array.extract_append, Array.extract_eq_self_of_le h]

namespace Output

structure Unlimited (out : Output) : Prop where
  room : out.room = none
  flushFault : out.flushFault = none

/-- The output as it is when it may hold a given number of bytes in all. -/
def upTo (out : Output) (limit : Nat) : Output :=
  { out with room := some (limit - out.written.size), flushFault := none }

def add (out : Output) (bytes : Array UInt8) : Output :=
  { out with written := out.written ++ bytes }

def lineBytes (text : String) : Array UInt8 :=
  text.toUTF8.data ++ "\n".toUTF8.data

@[simp] theorem size_written_add (out : Output) (bytes : Array UInt8) :
    (out.add bytes).written.size = out.written.size + bytes.size :=
  Array.size_append

@[simp] theorem add_add (out : Output) (first second : Array UInt8) :
    (out.add first).add second = out.add (first ++ second) := by
  simp [add]

theorem writeLine_unlimited {out : Output} (h : out.Unlimited) (text : String) :
    writeLine text out = .ok () (out.add (lineBytes text)) := by
  obtain ⟨written, room, message, flushFault⟩ := out
  obtain ⟨rfl, rfl⟩ : room = none ∧ flushFault = none := ⟨h.room, h.flushFault⟩
  rw [lineBytes, ← add_add]
  rfl

theorem write_of_fits {out : Output} {limit : Nat} {text : String}
    (h : out.written.size + text.toUTF8.data.size ≤ limit) :
    write text (out.upTo limit) = .ok () ((out.add text.toUTF8.data).upTo limit) := by
  have hroom : text.toUTF8.data.size ≤ limit - out.written.size := by omega
  simp only [write, writeBytes, upTo, add, hroom, if_true, Array.size_append, Nat.sub_sub]

theorem write_of_full {out : Output} {limit : Nat} {text : String}
    (hsize : out.written.size ≤ limit) (h : limit < out.written.size + text.toUTF8.data.size) :
    ∃ cut, write text (out.upTo limit) = .error out.fullMessage cut ∧
      cut.written = (out.add text.toUTF8.data).written.take limit := by
  have hroom : ¬ text.toUTF8.data.size ≤ limit - out.written.size := by omega
  refine ⟨_, by simp only [write, writeBytes, upTo, hroom, if_false]; rfl, ?_⟩
  exact (take_append_of_size_le _ _ hsize).symm

/-- A line whose bytes all fit is written. -/
theorem writeLine_of_fits {out : Output} {limit : Nat} {text : String}
    (h : (out.add (lineBytes text)).written.size ≤ limit) :
    writeLine text (out.upTo limit) = .ok () ((out.add (lineBytes text)).upTo limit) := by
  rw [lineBytes, ← add_add] at h ⊢
  have htext : (out.add text.toUTF8.data).written.size ≤ limit := by
    rw [size_written_add] at h
    omega
  rw [size_written_add] at h htext
  rw [writeLine, bind_of_ok (write_of_fits htext), bind_of_ok (write_of_fits h)]
  rfl

/-- Of a line that does not fit, the bytes up to the limit are stored. -/
theorem writeLine_of_full {out : Output} {limit : Nat} {text : String}
    (hsize : out.written.size ≤ limit) (h : limit < (out.add (lineBytes text)).written.size) :
    ∃ cut, writeLine text (out.upTo limit) = .error out.fullMessage cut ∧
      cut.written = (out.add (lineBytes text)).written.take limit := by
  rw [lineBytes, ← add_add] at h ⊢
  by_cases htext : (out.add text.toUTF8.data).written.size ≤ limit
  · -- the text takes all the room, and the newline is what fails
    rw [size_written_add] at h
    obtain ⟨cut, hwrite, hcut⟩ := write_of_full htext h
    rw [size_written_add] at htext
    refine ⟨cut, ?_, hcut⟩
    rw [writeLine, bind_of_ok (write_of_fits htext), bind_of_error hwrite]
    rfl
  · have hfull : limit < out.written.size + text.toUTF8.data.size := by
      rw [size_written_add] at htext
      omega
    obtain ⟨cut, hwrite, hcut⟩ := write_of_full hsize hfull
    refine ⟨cut, ?_, ?_⟩
    · rw [writeLine, bind_of_error hwrite]
    · rw [hcut]
      exact (take_append_of_le _ _ (by omega)).symm

/-- What an unlimited output may become: no limit appears, and nothing that was
written gets lost. -/
def Continues (out later : Output) : Prop :=
  out.Unlimited →
    later.Unlimited ∧ later.fullMessage = out.fullMessage ∧ out.Extends later

theorem Continues.refl (out : Output) : out.Continues out := fun hout =>
  ⟨hout, rfl, Extends.refl out⟩

theorem Continues.trans {first second third : Output} (h : first.Continues second)
    (hnext : second.Continues third) : first.Continues third := by
  intro hfirst
  obtain ⟨hsecond, hmessage, hextends⟩ := h hfirst
  obtain ⟨hthird, hnextMessage, hnextExtends⟩ := hnext hsecond
  exact ⟨hthird, hnextMessage.trans hmessage, hextends.trans hnextExtends⟩

theorem Extends.size_le {out later : Output} (h : out.Extends later) :
    out.written.size ≤ later.written.size := by
  obtain ⟨bytes, hbytes⟩ := h
  rw [hbytes, Array.size_append]
  omega

theorem Extends.take_eq {out later : Output} (h : out.Extends later) {limit : Nat}
    (hlimit : limit ≤ out.written.size) : later.written.take limit = out.written.take limit := by
  obtain ⟨bytes, hbytes⟩ := h
  rw [hbytes, take_append_of_le _ _ hlimit]

end Output

namespace Session

def Continues (session later : Session) : Prop := session.output.Continues later.output

instance : Trans Continues Continues Continues := ⟨Output.Continues.trans⟩

def upTo (session : Session) (limit : Nat) : Session :=
  { session with output := session.output.upTo limit }

end Session

namespace Evaluation

open Session (Continues)

/-- The ending of an action that ran out of room: the output holds the first
bytes of another one. -/
def FailsAt (limit : Nat) (message : String) {α : Type} (full : Output)
    (outcome : EStateM.Result Stop Session α) : Prop :=
  ∃ failure cut, outcome = conclude (.error failure) cut ∧ failure.fault = .output message ∧
    cut.output.written = full.written.take limit

/-- An action under a limit on the output, on the right, does what the action on
the left does without one, until the limit is reached. -/
structure Truncates (limit : Nat) ⦃α : Type⦄ (x y : Evaluation α) : Prop where
  continues : Keeps Continues x
  fits : ∀ session result later, session.output.Unlimited → x session = conclude result later →
    later.output.written.size ≤ limit → y (session.upTo limit) = conclude result (later.upTo limit)
  full : ∀ session result later, session.output.Unlimited → x session = conclude result later →
    session.output.written.size ≤ limit → limit < later.output.written.size →
      FailsAt limit session.output.fullMessage later.output (y (session.upTo limit))

variable {limit : Nat}

theorem stateOf_conclude {α : Type} (result : Except Failure α) (later : Session) :
    stateOf (conclude result later) = later := by
  cases result <;> rfl

theorem Truncates.continues_of_conclude {α : Type} {x y : Evaluation α} (h : Truncates limit x y)
    {session later : Session} {result : Except Failure α} (hend : x session = conclude result later)
    (hsession : session.output.Unlimited) :
    later.output.Unlimited ∧ later.output.fullMessage = session.output.fullMessage ∧
      session.output.Extends later.output := by
  have hcontinues := h.continues session
  rw [hend, stateOf_conclude] at hcontinues
  exact hcontinues hsession

/-- What neither reads nor changes the output does the same under any limit. -/
theorem truncates_of_quiet {α : Type} {x : Evaluation α} (h : Quiet x) : Truncates limit x x := by
  have hquiet : ∀ session, ∃ result later, x session = conclude result later ∧
      later.output = session.output ∧
      x (session.upTo limit) = conclude result (later.upTo limit) := by
    intro session
    obtain ⟨result, environment, hx⟩ := h session.environment
    exact ⟨result, ⟨environment, session.output⟩, hx _, rfl, hx _⟩
  constructor
  · intro session
    obtain ⟨result, later, hx, houtput, -⟩ := hquiet session
    rw [hx, stateOf_conclude, Continues, houtput]
    exact Output.Continues.refl _
  · intro session result later _ hend _
    obtain ⟨actual, between, hx, -, hlimited⟩ := hquiet session
    obtain ⟨rfl, rfl⟩ := conclude_inj (hx.symm.trans hend)
    exact hlimited
  · intro session result later _ hend hsize hfull
    obtain ⟨actual, between, hx, houtput, -⟩ := hquiet session
    obtain ⟨rfl, rfl⟩ := conclude_inj (hx.symm.trans hend)
    rw [houtput] at hfull
    omega

theorem truncates_unfinished {α : Type} (action : Evaluation α) :
    Truncates limit (throw .unfinished) action := by
  have hnever : ∀ session (result : Except Failure α) later,
      (throw .unfinished : Evaluation α) session ≠ conclude result later := by
    intro session result later hend
    cases result <;> cases hend
  constructor
  · intro session
    exact Output.Continues.refl _
  · intro session result later _ hend
    exact absurd hend (hnever session result later)
  · intro session result later _ hend
    exact absurd hend (hnever session result later)

/-- A line is the place where the limit is met: what still fits of it is
written, and then printing fails. -/
theorem truncates_printLine (text : String) :
    Truncates limit (printLine text) (printLine text) := by
  have hprint : ∀ session : Session, session.output.Unlimited → printLine text session =
      .ok () { session with output := session.output.add (Output.lineBytes text) } := by
    intro session hsession
    rw [printLine, Output.writeLine_unlimited hsession]
  constructor
  · intro session hsession
    rw [hprint session hsession]
    exact ⟨⟨hsession.room, hsession.flushFault⟩, rfl, _, rfl⟩
  · intro session result later hsession hend hsize
    rw [hprint session hsession] at hend
    obtain ⟨rfl, rfl⟩ := conclude_inj (show conclude (.ok ()) _ = _ from hend)
    rw [printLine, Session.upTo, Output.writeLine_of_fits hsize]
    rfl
  · intro session result later hsession hend hsize hfull
    rw [hprint session hsession] at hend
    obtain ⟨rfl, rfl⟩ := conclude_inj (show conclude (.ok ()) _ = _ from hend)
    obtain ⟨cut, hwrite, hcut⟩ := Output.writeLine_of_full hsize hfull
    refine ⟨{ fault := .output session.output.fullMessage }, { session with output := cut }, ?_,
      rfl, hcut⟩
    rw [printLine, Session.upTo, hwrite]
    rfl

/-- Two actions in a row under a limit. If the first part exceeds it, the
limited side stops there, while the other side goes on and only adds bytes
behind those that count. -/
theorem truncates_bind {α β : Type} {x y : Evaluation α} {f g : α → Evaluation β}
    (hx : Truncates limit x y) (hf : ∀ value, Truncates limit (f value) (g value)) :
    Truncates limit (x >>= f) (y >>= g) := by
  constructor
  · exact hx.continues.bind fun value => (hf value).continues
  · intro session result later hsession hend hsize
    rcases bind_eq_conclude hend with ⟨value, between, hfirst, hnext⟩ | ⟨failure, rfl, hfirst⟩
    · obtain ⟨hbetween, -, -⟩ := hx.continues_of_conclude hfirst hsession
      obtain ⟨-, -, hextends⟩ := (hf value).continues_of_conclude hnext hbetween
      have hfits : between.output.written.size ≤ limit := by
        have hgrows := hextends.size_le
        omega
      have hlimited := hx.fits session (.ok value) between hsession hfirst hfits
      rw [bind_of_ok hlimited]
      exact (hf value).fits between result later hbetween hnext hsize
    · exact bind_of_error (hx.fits session (.error failure) later hsession hfirst hsize) g
  · intro session result later hsession hend hsize hfull
    rcases bind_eq_conclude hend with ⟨value, between, hfirst, hnext⟩ | ⟨failure, rfl, hfirst⟩
    · obtain ⟨hbetween, hmessage, -⟩ := hx.continues_of_conclude hfirst hsession
      by_cases hfits : between.output.written.size ≤ limit
      · have hlimited := hx.fits session (.ok value) between hsession hfirst hfits
        rw [bind_of_ok hlimited, ← hmessage]
        exact (hf value).full between result later hbetween hnext hfits hfull
      · -- the limited side has failed already, while the other one goes on
        obtain ⟨failure, cut, hlimited, hfault, hcut⟩ :=
          hx.full session (.ok value) between hsession hfirst hsize (by omega)
        obtain ⟨-, -, hextends⟩ := (hf value).continues_of_conclude hnext hbetween
        refine ⟨failure, cut, bind_of_error hlimited g, hfault, ?_⟩
        rw [hcut, hextends.take_eq (by omega)]
    · obtain ⟨cause, cut, hlimited, hfault, hcut⟩ :=
        hx.full session (.error failure) later hsession hfirst hsize hfull
      exact ⟨cause, cut, bind_of_error hlimited g, hfault, hcut⟩

/-- A list adds itself to the frames of a failure, whatever its cause. -/
theorem truncates_within {α : Type} (form : Form) {x y : Evaluation α} (hx : Truncates limit x y) :
    Truncates limit (within form x) (within form y) := by
  constructor
  · exact keeps_within form hx.continues
  · intro session result later hsession hend hsize
    obtain ⟨inner, hinner, rfl⟩ := within_eq_conclude hend
    exact within_of_conclude form (hx.fits session inner later hsession hinner hsize)
  · intro session result later hsession hend hsize hfull
    obtain ⟨inner, hinner, rfl⟩ := within_eq_conclude hend
    obtain ⟨cause, cut, hlimited, hfault, hcut⟩ :=
      hx.full session inner later hsession hinner hsize hfull
    exact ⟨cause.within form, cut, within_of_conclude form hlimited, hfault, hcut⟩

theorem congruence_truncates : Congruence (Truncates limit) where
  pure value := truncates_of_quiet (quiet_pure value)
  fail fault := truncates_of_quiet (quiet_fail fault)
  bind := truncates_bind
  within := truncates_within
  printLine := truncates_printLine

end Evaluation

theorem Form.respects_truncates (form : Form) (limit : Nat) :
    form.Respects (Evaluation.Truncates limit) where
  lookup name _ := Evaluation.truncates_of_quiet (Evaluation.quiet_lookup name)
  assign name _ value := Evaluation.truncates_of_quiet (Evaluation.quiet_assign name value)
  setCounter _ _ := Evaluation.truncates_of_quiet (Evaluation.quiet_assign _ _)
  unfinished _ _ := Evaluation.truncates_unfinished

namespace Program

open Evaluation (Congruence)

def Ends (source : String) (session : Session) (result : Except Failure (List Value))
    (later : Session) : Prop :=
  ∃ turns, run turns source session = conclude result later

theorem run_congr {R : ∀ ⦃α : Type⦄, Evaluation α → Evaluation α → Prop} (C : Congruence R)
    (h : ∀ form : Form, form.Respects R) {m n : Nat} (hturns : m ≤ n) (source : String) :
    R (run m source) (run n source) :=
  C.bind (C.ofExcept _) fun forms => Form.evalAll_congr C hturns forms fun form _ => h form

end Program

namespace Session

open Evaluation (Truncates FailsAt)

/-- The session with an output that has some room left, or unlimited room, and
can always be flushed. -/
def withRoom (session : Session) (room : Option Nat) : Session :=
  { session with output := { session.output with room, flushFault := none } }

/-- What becomes of an ending, known from an output without limit, to which
some bytes were added, if there is room for a limited number of bytes only. -/
structure CutOff {α : Type} (ends : Session → Except Failure α → Session → Prop)
    (session : Session) (result : Except Failure α) (later : Session) (bytes : Array UInt8)
    (limit : Nat) : Prop where
  fits : bytes.size ≤ limit → ends (session.withRoom (some limit)) result
    (later.withRoom (some (limit - bytes.size)))
  full : limit < bytes.size → ∃ failure cut,
    ends (session.withRoom (some limit)) (.error failure) cut ∧
      failure.fault = .output session.output.fullMessage ∧
      cut.output.written = session.output.written ++ bytes.take limit

theorem CutOff.mono {α : Type} {ends others : Session → Except Failure α → Session → Prop}
    {session later : Session} {result : Except Failure α} {bytes : Array UInt8} {limit : Nat}
    (h : CutOff ends session result later bytes limit)
    (hends : ∀ first result last, ends first result last → others first result last) :
    CutOff others session result later bytes limit := by
  constructor
  · intro hfits
    exact hends _ _ _ (h.fits hfits)
  · intro hfull
    obtain ⟨failure, cut, hend, hfault, hcut⟩ := h.full hfull
    exact ⟨failure, cut, hends _ _ _ hend, hfault, hcut⟩

theorem upTo_add (session : Session) (limit : Nat) :
    (session.withRoom none).upTo (session.output.written.size + limit) =
      session.withRoom (some limit) := by
  simp [upTo, withRoom, Output.upTo]

/-- The limit on the bytes that are still accepted is a limit on all bytes. -/
theorem cutOff_of_truncates {α : Type} {x : Evaluation α} {session later : Session}
    {result : Except Failure α} {limit : Nat}
    (h : Truncates (session.output.written.size + limit) x x)
    (hend : x (session.withRoom none) = conclude result later) :
    ∃ bytes, later.output.written = session.output.written ++ bytes ∧
      CutOff (fun first result last => x first = conclude result last) session result later bytes
        limit := by
  have hsession : (session.withRoom none).output.Unlimited := ⟨rfl, rfl⟩
  obtain ⟨-, -, hextends⟩ := h.continues_of_conclude hend hsession
  obtain ⟨bytes, hbytes⟩ : ∃ bytes, later.output.written = session.output.written ++ bytes :=
    hextends
  have hsize : later.output.written.size = session.output.written.size + bytes.size := by
    rw [hbytes, Array.size_append]
  refine ⟨bytes, hbytes, ?_, ?_⟩
  · intro hfits
    have hlimited := h.fits _ result later hsession hend (by omega)
    rw [upTo_add] at hlimited
    rw [hlimited]
    simp only [upTo, withRoom, Output.upTo, hsize, Nat.add_sub_add_left]
  · intro hfull
    obtain ⟨failure, cut, hlimited, hfault, hcut⟩ :=
      h.full _ result later hsession hend (Nat.le_add_right _ limit) (by omega)
    rw [upTo_add] at hlimited
    refine ⟨failure, cut, hlimited, hfault, ?_⟩
    rw [hcut, hbytes, take_append_of_size_le _ _ (Nat.le_add_right _ limit),
      Nat.add_sub_cancel_left]

end Session

open Session (CutOff) in
/-- A limit on the bytes that the output still accepts makes no difference to
an evaluation, or to the run of a program, that would print no more than that.
If it would print more, it fails for lack of room, and its output is the
beginning of what it would have printed, up to the limit. -/
theorem limited_output_truncates (session : Session) (limit : Nat) :
    (∀ (form : Form) (result : Except Failure Value) (later : Session),
      form.Ends (session.withRoom none) result later →
        ∃ bytes, later.output.written = session.output.written ++ bytes ∧
          CutOff form.Ends session result later bytes limit) ∧
      ∀ (source : String) (result : Except Failure (List Value)) (later : Session),
        Program.Ends source (session.withRoom none) result later →
          ∃ bytes, later.output.written = session.output.written ++ bytes ∧
            CutOff (Program.Ends source) session result later bytes limit := by
  constructor
  · rintro form result later ⟨turns, hend⟩
    have htruncates := Form.eval_congr Evaluation.congruence_truncates (Nat.le_refl turns) form
      (form.respects_truncates (session.output.written.size + limit))
    obtain ⟨bytes, hbytes, hcut⟩ := Session.cutOff_of_truncates htruncates hend
    exact ⟨bytes, hbytes, hcut.mono fun _ _ _ h => ⟨turns, h⟩⟩
  · rintro source result later ⟨turns, hend⟩
    have htruncates := Program.run_congr Evaluation.congruence_truncates
      (fun form => form.respects_truncates (session.output.written.size + limit))
      (Nat.le_refl turns) source
    obtain ⟨bytes, hbytes, hcut⟩ := Session.cutOff_of_truncates htruncates hend
    exact ⟨bytes, hbytes, hcut.mono fun _ _ _ h => ⟨turns, h⟩⟩

/-- Two lines of which all but the last newline fits. -/
theorem limited_output_truncates_newline :
    let form := Form.list [.symbol "let", .list [], .list [.symbol "print", .text "ab"],
      .list [.symbol "print", .text "cd"]]
    let session := Session.start {}
    (∃ later, form.Ends (session.withRoom none) (.ok (.text "cd")) later) ∧
      ∃ failure cut, form.Ends (session.withRoom (some 5)) (.error failure) cut ∧
        failure.fault = .output "failed to write whole buffer" ∧
        cut.output.written = "ab\ncd".toUTF8.data := by
  intro form session
  have hends : form.Ends (session.withRoom none) (.ok (.text "cd")) _ := ⟨0, rfl⟩
  obtain ⟨bytes, hbytes, hcut⟩ := (limited_output_truncates session 5).1 form _ _ hends
  obtain rfl : bytes = "ab\ncd\n".toUTF8.data := Array.empty_append.symm.trans hbytes.symm
  obtain ⟨failure, cut, hend, hfault, hwritten⟩ := hcut.full (by decide)
  exact ⟨⟨_, hends⟩, failure, cut, hend, hfault, hwritten⟩

end FlatLisp
