import FlatLisp.Proofs.Alignment
import FlatLisp.Proofs.Lines
import FlatLisp.Proofs.Sequencing
import FlatLisp.Proofs.Transcript

/-!
A file and a conversation. The shell that reads a source text line by line
comes to the same as running it as a file, if the text is such that lines can
be told apart: each literal stands on one line, no line has tokens of two
forms, and none of them is the word that leaves the shell.

The two sides do not cut the text alike. A file is stripped and lexed as a
whole, and its forms are found by a parser; a conversation strips every line,
joins them with blanks and submits what it has as soon as the parentheses are
balanced. What connects them are the tokens of the block in progress: they are
those of the first form that the parser has not yet completed.
-/

namespace FlatLisp

open FlatLisp.Form (Unbroken Whole)
open FlatLisp.Source (Neat Tidy stripFrom)
open FlatLisp.Text (isBlank)
open FlatLisp.Token (lexChars)

namespace Source

/-- A blank between a text without comments and another text. -/
theorem stripFrom_append_blank {first : List Char} (hplain : stripFrom .code first = first)
    (heven : first.count '"' % 2 = 0) {c : Char} (hblank : isBlank c = true) (second : List Char) :
    stripFrom .code (first ++ c :: second) = first ++ c :: stripFrom .code second := by
  have hliteral : Region.after .code first ≠ .literal := by
    rw [after_ne_literal_iff, hplain]
    exact heven
  have hvisible := (stripFrom_stripFrom .code first).2
  rw [hplain] at hvisible
  have hregion : Region.after .code first = .code := by
    cases hafter : Region.after .code first with
    | code => rfl
    | literal => exact absurd hafter hliteral
    | comment =>
        have hcode : Region.after .code first = .code := by
          simpa only [Region.visible, hafter] using hvisible
        rw [hafter] at hcode
        cases hcode
  have hnext : Region.next .code c = .code := by
    rw [Region.next, if_neg (Text.ne_of_isBlank hblank (by decide)),
      if_neg (Text.ne_of_isBlank hblank (by decide))]
  have hkept : Region.next .code c ≠ .comment := by
    rw [hnext]
    decide
  rw [stripFrom_append, hplain, hregion, stripFrom_cons_of_ne hkept, hnext]

/-- The comments of a tidy text can be stripped line by line: no literal is open
at the end of a line. -/
theorem stripFrom_line_of_tidy {line rest : List Char}
    (h : Tidy (stripFrom .code (line ++ '\n' :: rest))) :
    stripFrom .code (line ++ '\n' :: rest) =
      stripFrom .code line ++ '\n' :: stripFrom .code rest := by
  apply stripFrom_append_newline
  have hnewline : (Region.after .code line).next '\n' ≠ .comment := by
    cases Region.after .code line <;> decide
  rw [stripFrom_append, stripFrom_cons_of_ne hnewline] at h
  exact (after_ne_literal_iff line).mpr h.neat_line.even

end Source

namespace Shell

/-- Lines that come behind some tokens and tell forms apart: no form ends in
the middle of a line, and where no form is under way no line is the word that
leaves the shell. -/
structure LineWise (pending : List Token) (lines : List (List Char)) : Prop where
  apart : ∀ earlier line later, lines = earlier ++ line :: later →
    Unbroken (pending ++ earlier.flatMap lexChars) (lexChars line)
  stays : ∀ earlier line later, lines = earlier ++ line :: later →
    Whole (pending ++ earlier.flatMap lexChars) → Text.trim (String.ofList line) ≠ "exit"

/-- Whether lines tell forms apart can be decided line by line. -/
theorem lineWise_iff {pending : List Token} {lines : List (List Char)} :
    LineWise pending lines ↔ ∀ (i : Nat) (h : i < lines.length),
      Unbroken (pending ++ (lines.take i).flatMap lexChars) (lexChars lines[i]) ∧
        (Whole (pending ++ (lines.take i).flatMap lexChars) →
          Text.trim (String.ofList lines[i]) ≠ "exit") := by
  rw [← Source.forall_place_iff (P := fun earlier line _ =>
    Unbroken (pending ++ earlier.flatMap lexChars) (lexChars line) ∧
      (Whole (pending ++ earlier.flatMap lexChars) → Text.trim (String.ofList line) ≠ "exit"))]
  constructor
  · intro h earlier line later hsplit
    exact ⟨h.apart earlier line later hsplit, h.stays earlier line later hsplit⟩
  · intro h
    constructor
    · intro earlier line later hsplit
      exact (h earlier line later hsplit).1
    · intro earlier line later hsplit
      exact (h earlier line later hsplit).2

instance (pending : List Token) (lines : List (List Char)) : Decidable (LineWise pending lines) :=
  decidable_of_iff _ lineWise_iff.symm

theorem LineWise.tail {pending : List Token} {line : List Char} {lines : List (List Char)}
    (h : LineWise pending (line :: lines)) : LineWise (pending ++ lexChars line) lines := by
  constructor
  · rintro earlier other later rfl
    simpa using h.apart (line :: earlier) other later rfl
  · rintro earlier other later rfl
    simpa using h.stays (line :: earlier) other later rfl

/-- Complete forms in front of the tokens that are pending make no difference to
the lines behind them. -/
theorem LineWise.of_whole_append {complete pending : List Token} {lines : List (List Char)}
    (h : LineWise (complete ++ pending) lines) (hcomplete : Whole complete) :
    LineWise pending lines := by
  constructor
  · intro earlier line later hlines first second hfirst hnonempty hmore hwhole
    refine h.apart earlier line later hlines first second hfirst hnonempty hmore ?_
    rw [List.append_assoc, List.append_assoc, Form.whole_append_iff hcomplete, ← List.append_assoc]
    exact hwhole
  · intro earlier line later hlines hwhole
    refine h.stays earlier line later hlines ?_
    rw [List.append_assoc, Form.whole_append_iff hcomplete]
    exact hwhole

/-- A block in progress, and the tokens that it has. -/
inductive Awaits : Option String → List Token → Prop where
  | nothing : Awaits none []
  | block {text : String} (neat : Neat text.toList)
      (plain : stripFrom .code text.toList = text.toList)
      (nonempty : lexChars text.toList ≠ [])
      (incomplete : ∀ first second, lexChars text.toList = first ++ second → first ≠ [] →
        ¬ Whole first) :
      Awaits (some text) (lexChars text.toList)

/-- A reaction to tokens that are not yet submitted: the shell awaits more of
them, or they are one form and are submitted. -/
inductive Reaction.Fits (tokens : List Token) : Reaction → Prop where
  | wait {block : Option String} (awaits : Awaits block tokens) : Fits tokens (.wait block)
  | submit {unit : String} {form : Form} (same : Program.tokens unit = tokens)
      (read : Form.parse tokens = (.ok (some form), [])) : Fits tokens (.submit unit)

/-- The parentheses of a block are balanced as soon as its form is complete. -/
theorem gather_fits {text : String} (hneat : Neat text.toList)
    (hplain : stripFrom .code text.toList = text.toList) (hnonempty : lexChars text.toList ≠ [])
    (hvalid : Token.firstFault 0 (lexChars text.toList) = none)
    (hunbroken : Unbroken [] (lexChars text.toList)) :
    (gather text).Fits (lexChars text.toList) := by
  have hnesting : Source.nesting text = Token.finalLevel 0 (lexChars text.toList) := by
    rw [Token.finalLevel_eq_nesting hvalid, Source.nesting, hneat.aligned.nestingFrom_eq]
    simp
  rw [gather, hnesting]
  split
  next hopen =>
    -- the block itself is not whole because a list is open, and no shorter part of it was
    refine .wait (.block hneat hplain hnonempty fun first second hsplit hfirst => ?_)
    cases second with
    | nil =>
        rw [List.append_nil] at hsplit
        rw [← hsplit, Form.whole_iff]
        omega
    | cons token more => exact hunbroken first _ hsplit hfirst (by simp)
  next hclosed =>
    have hlevel : Token.finalLevel 0 (lexChars text.toList) = 0 := by omega
    have hwhole := Form.whole_iff.mpr ⟨hvalid, hlevel⟩
    obtain ⟨form, hform⟩ := Form.exists_parse_of_whole hwhole hnonempty hunbroken
    refine .submit ?_ hform
    rw [Program.tokens_eq_lexChars, hplain]

theorem toList_append_blank (first second : String) :
    (first ++ " " ++ second).toList = first.toList ++ ' ' :: second.toList := by
  simp

/-- The shell reacts to a line as its tokens ask for. -/
theorem react_fits {block : Option String} {pending tokens : List Token}
    (hblock : Awaits block pending) {line : String}
    (hneat : Neat (Source.stripComments line).toList)
    (htokens : lexChars (Source.stripComments line).toList = tokens)
    (hvalid : Token.firstFault 0 (pending ++ tokens) = none)
    (hapart : Unbroken pending tokens)
    (hstays : Whole pending → Text.trim (Source.stripComments line) ≠ "exit") :
    (react block (.line line)).Fits (pending ++ tokens) := by
  subst htokens
  have hplain : stripFrom .code (Source.stripComments line).toList =
      (Source.stripComments line).toList := by
    rw [Source.toList_stripComments]
    exact (Source.stripFrom_stripFrom .code line.toList).1
  have hempty : lexChars (Source.stripComments line).toList = [] ↔
      Text.trim (Source.stripComments line) = "" := by
    rw [Token.lexChars_eq_nil_iff, ← Token.trim_eq_empty_iff, String.ofList_toList]
  cases hblock with
  | nothing =>
      rw [List.nil_append] at hvalid ⊢
      simp only [react]
      split
      next hblank =>
        rw [hempty.mpr hblank]
        exact .wait .nothing
      next hsome =>
        rw [if_neg (hstays ⟨[], Form.parseAll_nil⟩)]
        exact gather_fits hneat hplain (fun hnil => hsome (hempty.mp hnil)) hvalid hapart
  | @block text hopen hbare hnonempty hincomplete =>
      have hblank : isBlank ' ' = true := by decide
      have hjoined : lexChars (text ++ " " ++ Source.stripComments line).toList =
          lexChars text.toList ++ lexChars (Source.stripComments line).toList := by
        rw [toList_append_blank, hopen.lexChars_append_blank hblank]
      rw [← hjoined] at hvalid ⊢
      apply gather_fits _ _ _ hvalid
      · intro first second hsplit hfirst hsecond
        rw [hjoined] at hsplit
        rcases List.append_eq_append_iff.mp hsplit with ⟨more, rfl, hmore⟩ | ⟨more, hmore, -⟩
        · cases more with
          | nil => exact hincomplete _ [] (by simp) hfirst
          | cons token more => exact hapart _ second hmore (by simp) hsecond
        · exact hincomplete first more hmore hfirst
      · rw [toList_append_blank]
        exact hopen.append_blank hneat hblank
      · rw [toList_append_blank, Source.stripFrom_append_blank hbare hopen.even hblank, hplain]
      · rw [hjoined]
        exact List.append_ne_nil_of_left_ne_nil hnonempty _

def alone (form : Form) : Form.Parse := (.ok (some form), [])

theorem parses_append (first second : List Event) :
    parses (first ++ second) = parses first ++ parses second := by
  simp [parses]

theorem parses_promptEvents (settings : Settings) (block : Option String) :
    parses (promptEvents settings block) = [] := by
  unfold promptEvents
  split <;> rfl

theorem parses_ended (settings : Settings) (block : Option String) :
    parses (dialogue settings block []) = [] := by
  rw [dialogue, parses_append, parses_promptEvents]
  rfl

theorem parses_wait {settings : Settings} {block next : Option String} {reading : Reading}
    (h : react block reading = .wait next) (rest : List Reading) :
    parses (dialogue settings block (reading :: rest)) = parses (dialogue settings next rest) := by
  simp only [dialogue, h, parses_append, parses_promptEvents]
  rfl

theorem parses_submit {settings : Settings} {block : Option String} {reading : Reading}
    {unit : String} (h : react block reading = .submit unit) (rest : List Reading) :
    parses (dialogue settings block (reading :: rest)) =
      Form.parse (Program.tokens unit) :: parses (dialogue settings none rest) := by
  simp only [dialogue, h, parses_append, parses_promptEvents]
  rfl

/-- A dialogue reads the forms of some tokens if the reaction to a line fits the
first of them and what comes behind it reads the forms that are left. -/
theorem parses_of_fits {settings : Settings} {block : Option String} {reading : Reading}
    {tokens more : List Token} {forms : List Form} {rest : List Reading}
    (hfits : (react block reading).Fits tokens)
    (hforms : Form.parseAll (tokens ++ more) = .ok forms)
    (hrest : ∀ next complete pending later, Whole complete → tokens = complete ++ pending →
      Awaits next pending → Form.parseAll (pending ++ more) = .ok later →
        parses (dialogue settings next rest) = later.map alone) :
    parses (dialogue settings block (reading :: rest)) = forms.map alone := by
  generalize hreaction : react block reading = reaction at hfits
  cases hfits with
  | @wait next hawaits =>
      rw [parses_wait hreaction]
      exact hrest next [] tokens forms ⟨[], Form.parseAll_nil⟩ rfl hawaits hforms
  | @submit unit form hsame hread =>
      have hone : Form.parseAll tokens = .ok [form] := by
        rw [Form.parseAll_of_parse hread, Form.parseAll_nil]
        rfl
      rw [Form.parseAll_append hone] at hforms
      cases hmore : Form.parseAll more with
      | error fault =>
          rw [hmore] at hforms
          cases hforms
      | ok later =>
          rw [hmore] at hforms
          obtain rfl : form :: later = forms := Except.ok.inj hforms
          have hlater := hrest none tokens [] later ⟨_, hone⟩ (by simp) .nothing hmore
          rw [parses_submit hreaction, hsame, hread, hlater]
          rfl

/-- Where the tokens end no block is in progress. -/
theorem Awaits.eq_nil {block : Option String} {pending : List Token} {forms : List Form}
    (h : Awaits block pending) (hforms : Form.parseAll pending = .ok forms) : forms = [] := by
  cases h with
  | nothing =>
      rw [Form.parseAll_nil] at hforms
      exact (Except.ok.inj hforms).symm
  | block _ _ hnonempty hincomplete =>
      exact absurd ⟨forms, hforms⟩ (hincomplete _ [] (by simp) hnonempty)

/-- A carriage return at the end of a line makes no difference. -/
theorem stripFrom_withoutReturn {line : List Char} (h : Neat (stripFrom .code line)) :
    Neat (stripFrom .code (withoutReturn line)) ∧
      lexChars (stripFrom .code (withoutReturn line)) = lexChars (stripFrom .code line) ∧
      Text.trim (String.ofList (stripFrom .code (withoutReturn line))) =
        Text.trim (String.ofList (stripFrom .code line)) := by
  rcases List.eq_nil_or_concat line with rfl | ⟨start, c, rfl⟩
  · exact ⟨h, rfl, rfl⟩
  · rw [List.concat_eq_append] at h ⊢
    rw [withoutReturn_concat]
    split
    next hreturn =>
      subst hreturn
      have hblank : isBlank '\r' = true := by decide
      rw [Source.stripFrom_append] at h ⊢
      by_cases hcomment : (Source.Region.after .code start).next '\r' = .comment
      · rw [Source.stripFrom_cons_of_comment hcomment, Source.stripFrom_nil, List.append_nil] at h ⊢
        exact ⟨h, rfl, rfl⟩
      · rw [Source.stripFrom_cons_of_ne hcomment, Source.stripFrom_nil] at h ⊢
        have heven : (stripFrom .code start).count '"' % 2 = 0 := by simpa using h.even
        have hstart : Neat (stripFrom .code start) := ⟨h.aligned.left, heven⟩
        refine ⟨hstart, ?_, (Token.trim_concat_blank _ hblank).symm⟩
        rw [hstart.lexChars_append_blank hblank]
        simp [lexChars, Token.pad, Token.scan]
    next => exact ⟨h, rfl, rfl⟩

/-- The step of the dialogue: a line that is read has the tokens of the stripped
line of the whole text, so the reaction to it fits the tokens that are pending
and those of the line. -/
theorem reading_fits {block : Option String} {pending more : List Token} {forms : List Form}
    (hblock : Awaits block pending) {line read : List Char} {lines : List (List Char)}
    (hlines : LineWise pending (line :: lines))
    (hforms : Form.parseAll (pending ++ lexChars line ++ more) = .ok forms)
    (hneat : Neat (stripFrom .code read))
    (htokens : lexChars (stripFrom .code read) = lexChars line)
    (htrim : Text.trim (String.ofList (stripFrom .code read)) = Text.trim (String.ofList line)) :
    (react block (.line (String.ofList read))).Fits (pending ++ lexChars line) := by
  have hstripped : Source.stripComments (String.ofList read) =
      String.ofList (stripFrom .code read) := by
    rw [Source.stripComments, String.toList_ofList]
  have hvalid := Token.firstFault_of_append (Form.whole_iff.mp ⟨forms, hforms⟩).1
  refine react_fits hblock ?_ ?_ hvalid ?_ ?_
  · rw [hstripped, String.toList_ofList]
    exact hneat
  · rw [hstripped, String.toList_ofList, htokens]
  · simpa using hlines.apart [] line lines rfl
  · rw [hstripped, htrim]
    simpa using hlines.stays [] line lines rfl

/-- The units of a conversation are read as the forms of the text, one by one. -/
theorem parses_dialogue (settings : Settings) {text : List Char} {block : Option String}
    {pending : List Token} {forms : List Form} (hblock : Awaits block pending)
    (htidy : Tidy (stripFrom .code text))
    (hlines : LineWise pending ((stripFrom .code text).splitOn '\n'))
    (hforms : Form.parseAll (pending ++ lexChars (stripFrom .code text)) = .ok forms) :
    parses (dialogue settings block (readings (encoded text).toArray)) = forms.map alone := by
  -- by lines, for every block: its tokens stand in front of those of the text that is left
  induction text using lines_induction generalizing block pending forms with
  | last line hline =>
      have hnewline : '\n' ∉ stripFrom .code line := fun h => hline (Source.mem_of_mem_stripFrom h)
      rw [List.splitOn_eq_singleton hnewline] at hlines
      by_cases hempty : line = []
      · subst hempty
        rw [Source.stripFrom_nil, show lexChars [] = [] from rfl, List.append_nil] at hforms
        rw [hblock.eq_nil hforms]
        exact parses_ended settings block
      · rw [readings_last hline hempty]
        rw [← List.append_nil (pending ++ _)] at hforms
        have hfits := reading_fits hblock hlines hforms htidy.neat_last rfl rfl
        refine parses_of_fits hfits hforms fun next complete pending later _ _ hnext hlater => ?_
        rw [List.append_nil] at hlater
        rw [parses_ended, hnext.eq_nil hlater]
        rfl
  | line line rest hline ih =>
      have hnewline : '\n' ∉ stripFrom .code line := fun h => hline (Source.mem_of_mem_stripFrom h)
      have hblank : isBlank '\n' = true := by decide
      have hcut := Source.stripFrom_line_of_tidy htidy
      rw [hcut] at htidy hlines hforms
      rw [List.splitOn_append_cons_self_of_not_mem hnewline] at hlines
      rw [htidy.neat_line.lexChars_append_blank hblank, ← List.append_assoc] at hforms
      obtain ⟨hneat, htokens, htrim⟩ := stripFrom_withoutReturn htidy.neat_line
      rw [readings_line hline]
      have hfits := reading_fits hblock hlines hforms hneat htokens htrim
      refine parses_of_fits hfits hforms ?_
      intro next complete pending later hcomplete hsplit hnext hlater
      have hleft := hlines.tail
      rw [hsplit] at hleft
      exact ih hnext htidy.rest (hleft.of_whole_append hcomplete) hlater

/-- A conversation about a source text comes to the same as running it as a
file, if every literal stands on one line where a token can start, no line has
tokens of two forms, and no line between forms is the word that leaves the
shell. The units are the forms of the text, each is answered by what the file
writes between the echo of the form and the blank line behind it, whether it
fails or not, and both leave the same environment. -/
theorem conversation_agrees_with_file {source : String} {forms : List Form}
    (hforms : Program.forms source = .ok forms) (htidy : Tidy (Source.stripComments source).toList)
    (hlines : LineWise [] ((Source.stripComments source).toList.splitOn '\n')) (settings : Settings)
    (path : String) (session : Session) :
    let input := source.toUTF8.data
    let replied := replies settings session (dialogue settings none (readings input))
    (units settings (readings input)).map (fun unit => Form.parse (Program.tokens unit)) =
        forms.map alone ∧
      replied = fileReplies settings.color session forms ∧
      ∃ later, runFile settings.color path (.ok input) session = .ok later ∧
        (converse settings (readings input) session).environment = later.environment ∧
        later.output.written =
          session.output.written ++ fileTranscript settings.color forms replied := by
  intro input replied
  have hinput : input = (encoded source.toList).toArray := by
    rw [← toUTF8_eq_encoded, String.ofList_toList]
  have hparses : parses (dialogue settings none (readings input)) = forms.map alone := by
    rw [Program.forms, Program.tokens_eq_lexChars] at hforms
    rw [Source.toList_stripComments] at htidy hlines
    rw [hinput]
    exact parses_dialogue settings .nothing htidy hlines hforms
  obtain ⟨hreplies, hcleared⟩ := replies_agree settings hparses (Eq.refl session.cleared)
  have hfile : fileForms path (.ok input) = .ok forms := by
    rw [fileForms, hinput, decode?_encoded, String.ofList_toList]
    simp only [hforms]
    rfl
  refine ⟨hparses, hreplies, forms.foldl (runForm settings.color) session, ?_, ?_, ?_⟩
  · rw [runFile, hfile]
    rfl
  · have henvironment := congrArg Session.environment hcleared
    rw [Session.environment_cleared, Session.environment_cleared] at henvironment
    exact henvironment
  · rw [written_foldl_runForm, ← hreplies]

/-- Comments, a literal with a parenthesis and a semicolon, a carriage return, a
blank line, a form that fails and one that has the word `exit` in it. -/
theorem conversation_agrees_with_file_multiline :
    let source := "(print ; say \"it (\n  \"(;\")\r\n\n(let (x 2)\nexit)\nx"
    let forms : List Form := [.list [.symbol "print", .text " ( ;"],
      .list [.symbol "let", .list [.symbol "x", .number (.integer 2)], .symbol "exit"], .symbol "x"]
    let input := source.toUTF8.data
    let session := Session.start {}
    Program.forms source = .ok forms ∧ Tidy (Source.stripComments source).toList ∧
      LineWise [] ((Source.stripComments source).toList.splitOn '\n') ∧
      replies {} session (dialogue {} none (readings input)) =
        [" ( ;\n-> \" ( ;\"\n", " [Lang Error] Unbound symbol: \"exit\"\n0)  (let (x 2) exit)\n",
          "-> 2\n"].map (·.toUTF8.data) ∧
      ∃ later, runFile false "x.lisp" (.ok input) session = .ok later ∧
        (converse {} (readings input) session).environment = later.environment := by
  intro source forms input session
  have hforms : Program.forms source = .ok forms := by
    exact Form.parseAll_of_spell (by decide +kernel)
  have htidy : Tidy (Source.stripComments source).toList := by decide +kernel
  have hlines : LineWise [] ((Source.stripComments source).toList.splitOn '\n') := by
    decide +kernel
  have hfile : fileReplies false session forms =
      [" ( ;\n-> \" ( ;\"\n", " [Lang Error] Unbound symbol: \"exit\"\n0)  (let (x 2) exit)\n",
        "-> 2\n"].map (·.toUTF8.data) := by
    decide +kernel
  obtain ⟨-, hreplies, later, hrun, henvironment, -⟩ :=
    conversation_agrees_with_file hforms htidy hlines {} "x.lisp" session
  exact ⟨hforms, htidy, hlines, hreplies.trans hfile, later, hrun, henvironment⟩

end Shell

end FlatLisp
