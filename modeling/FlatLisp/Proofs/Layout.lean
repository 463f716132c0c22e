import FlatLisp.Form.Parser
import Mathlib.Data.List.Basic

/-!
The layout of forms: what stands at each place of a text, parentheses and
atoms, without the tree that they make up. A form has one layout, and a token
says what stands at its place or is at fault. This module compares the parser,
which keeps a stack of open lists, with a scan that only counts how many lists
are open.

The main statement is `parseAll_by_level`: the parser fails at the first fault
that the scan meets, and otherwise its forms have the layout that the tokens
have, place by place.
-/

namespace FlatLisp

/-- What stands at one place of a text. -/
inductive Piece where
  | opening
  | closing
  | atom (value : Atom)
  deriving DecidableEq, Repr

def Token.piece : Token → Except Fault Piece
  | .opening => .ok .opening
  | .closing => .ok .closing
  | .quoted text | .word text => (Atom.ofText text).map .atom

/-- A token sequence spells pieces if it has just these, place by place. -/
def Token.Spell (tokens : List Token) (pieces : List Piece) : Prop :=
  tokens.map Token.piece = pieces.map .ok

instance (tokens : List Token) (pieces : List Piece) : Decidable (Token.Spell tokens pieces) :=
  inferInstanceAs (Decidable (_ = _))

namespace Form

mutual

def pieces : Form → List Piece
  | .atom value => [.atom value]
  | .list elements => .opening :: (piecesAll elements ++ [.closing])

def piecesAll : List Form → List Piece
  | [] => []
  | form :: rest => form.pieces ++ piecesAll rest

end

@[simp] theorem piecesAll_append (first second : List Form) :
    piecesAll (first ++ second) = piecesAll first ++ piecesAll second := by
  induction first with
  | nil => rfl
  | cons form rest ih => simp [piecesAll, ih]

def HasAtom (form : Form) (value : Atom) : Prop := .atom value ∈ form.pieces

instance (form : Form) (value : Atom) : Decidable (form.HasAtom value) :=
  inferInstanceAs (Decidable (_ ∈ _))

theorem hasAtom_list {elements : List Form} {form : Form} (hform : form ∈ elements) {value : Atom}
    (h : form.HasAtom value) : (list elements).HasAtom value := by
  obtain ⟨before, after, rfl⟩ := List.append_of_mem hform
  simp only [HasAtom, pieces, piecesAll_append, piecesAll] at h ⊢
  simp [h]

end Form

namespace Token

/-- The fault of a token that stands inside a given number of lists. -/
def fault? (level : Nat) : Token → Option Fault
  | .opening => none
  | .closing => if level = 0 then some .unmatchedClose else none
  | .quoted text | .word text =>
      if (Atom.ofText text).isOk then none else some (.invalidNumber text)

def levelAfter (level : Nat) : Token → Nat
  | .opening => level + 1
  | .closing => level - 1
  | .quoted _ | .word _ => level

def firstFault (level : Nat) : List Token → Option Fault
  | [] => none
  | token :: rest =>
      match token.fault? level with
      | some fault => some fault
      | none => firstFault (token.levelAfter level) rest

def finalLevel (level : Nat) (tokens : List Token) : Nat :=
  tokens.foldl levelAfter level

theorem firstFault_cons {level : Nat} {token : Token} (h : token.fault? level = none)
    (rest : List Token) :
    firstFault level (token :: rest) = firstFault (token.levelAfter level) rest := by
  simp [firstFault, h]

/-- Only a closing parenthesis outside of all lists and a text that is no atom
are at fault. -/
theorem fault?_cases {level : Nat} {token : Token} {fault : Fault}
    (h : token.fault? level = some fault) :
    fault = .unmatchedClose ∨ ∃ text, fault = .invalidNumber text := by
  cases token with
  | opening => cases h
  | closing =>
      simp only [fault?] at h
      split at h
      · exact .inl (Option.some.inj h).symm
      · cases h
  | quoted text | word text =>
      simp only [fault?] at h
      split at h
      · cases h
      · exact .inr ⟨text, (Option.some.inj h).symm⟩

/-- A scan finds faults of two kinds only. -/
theorem firstFault_cases {level : Nat} {tokens : List Token} {fault : Fault}
    (h : firstFault level tokens = some fault) :
    fault = .unmatchedClose ∨ ∃ text, fault = .invalidNumber text := by
  induction tokens generalizing level with
  | nil => cases h
  | cons token rest ih =>
      rw [firstFault] at h
      split at h
      next found hfound =>
        obtain rfl : found = fault := Option.some.inj h
        exact fault?_cases hfound
      next => exact ih h

theorem firstFault_of_append {level : Nat} {first second : List Token}
    (h : firstFault level (first ++ second) = none) : firstFault level first = none := by
  induction first generalizing level with
  | nil => rfl
  | cons token rest ih =>
      rw [List.cons_append, firstFault] at h
      split at h
      · cases h
      next hvalid => rw [firstFault_cons hvalid, ih h]

@[simp] theorem spell_nil : Spell [] [] := rfl

theorem spell_cons {token : Token} {tokens : List Token} {piece : Piece} {pieces : List Piece} :
    Spell (token :: tokens) (piece :: pieces) ↔ token.piece = .ok piece ∧ Spell tokens pieces := by
  simp [Spell]

/-- What spells two layouts in a row can be cut in two at the seam. -/
theorem spell_append {tokens : List Token} {first second : List Piece} :
    Spell tokens (first ++ second) ↔
      ∃ before after, tokens = before ++ after ∧ Spell before first ∧ Spell after second := by
  constructor
  · intro h
    rw [Spell, List.map_append, List.map_eq_append_iff] at h
    exact h
  · rintro ⟨before, after, rfl, hbefore, hafter⟩
    rw [Spell, List.map_append, List.map_append, hbefore, hafter]

theorem exists_of_spell_cons {tokens : List Token} {piece : Piece} {pieces : List Piece}
    (h : Spell tokens (piece :: pieces)) :
    ∃ token rest, tokens = token :: rest ∧ token.piece = .ok piece ∧ Spell rest pieces := by
  rw [Spell, List.map_cons] at h
  exact List.map_eq_cons_iff.mp h

theorem exists_of_spell_singleton {tokens : List Token} {piece : Piece} (h : Spell tokens [piece]) :
    ∃ token, tokens = [token] ∧ token.piece = .ok piece := by
  obtain ⟨token, rest, rfl, hread, hrest⟩ := exists_of_spell_cons h
  obtain rfl : rest = [] := List.map_eq_nil_iff.mp hrest
  exact ⟨token, rfl, hread⟩

theorem exists_token_of_spell {tokens : List Token} {pieces : List Piece} (h : Spell tokens pieces)
    {piece : Piece} (hpiece : piece ∈ pieces) : ∃ token ∈ tokens, token.piece = .ok piece := by
  have hmember : .ok piece ∈ pieces.map (Except.ok (ε := Fault)) := List.mem_map_of_mem hpiece
  rw [← h] at hmember
  exact List.mem_map.mp hmember

end Token

/-- The only texts that are no atoms are numerals without a number, and the
fault names the text. -/
theorem Atom.ofText_eq_error {text : String} {fault : Fault} (h : ofText text = .error fault) :
    fault = .invalidNumber text := by
  unfold ofText at h
  split at h
  · cases h
  · split at h
    · split at h
      · cases h
      · exact (Except.error.inj h).symm
    · cases h

theorem Atom.map_ofText_eq_ok {text : String} {piece : Piece}
    (h : (ofText text).map Piece.atom = .ok piece) :
    ∃ value, ofText text = .ok value ∧ piece = .atom value := by
  cases hvalue : ofText text with
  | ok value =>
      rw [hvalue] at h
      exact ⟨value, rfl, (Except.ok.inj h).symm⟩
  | error fault =>
      rw [hvalue] at h
      cases h

namespace Form

/-- The layout of what is read so far, given the lists that are still open. -/
def openPieces : List (List Form) → List Piece
  | [] => []
  | inner :: outer => openPieces outer ++ .opening :: piecesAll inner.reverse

/-- What one token does, said by levels and pieces alone. -/
inductive StepSpec (stack : List (List Form)) (token : Token) : Step → Prop where
  | resume {next : List (List Form)} {piece : Piece}
      (valid : token.fault? stack.length = none)
      (level : next.length = token.levelAfter stack.length)
      (read : token.piece = .ok piece)
      (layout : openPieces next = openPieces stack ++ [piece]) : StepSpec stack token (.resume next)
  | complete {form : Form} {piece : Piece}
      (valid : token.fault? stack.length = none)
      (level : token.levelAfter stack.length = 0)
      (read : token.piece = .ok piece)
      (layout : form.pieces = openPieces stack ++ [piece]) : StepSpec stack token (.complete form)
  | fail {fault : Fault} (found : token.fault? stack.length = some fault) :
      StepSpec stack token (.fail fault)

/-- Handing over a finished form meets the specification, if the form adds the
piece of the token to the layout. -/
theorem stepSpec_deliver {stack outer : List (List Form)} {token : Token} {form : Form}
    (piece : Piece) (hvalid : token.fault? stack.length = none)
    (hlevel : outer.length = token.levelAfter stack.length) (hread : token.piece = .ok piece)
    (hlayout : openPieces outer ++ form.pieces = openPieces stack ++ [piece]) :
    StepSpec stack token (deliver form outer) := by
  cases outer with
  | nil => exact .complete hvalid hlevel.symm hread hlayout
  | cons inner rest =>
      refine .resume hvalid (by simpa using hlevel) hread ?_
      rw [← hlayout]
      simp [openPieces, piecesAll]

/-- The two kinds of atom tokens differ only in how they were cut, so they are
treated at once. -/
theorem stepSpec_atom {stack : List (List Form)} {token : Token} {text : String}
    (hfault : token.fault? stack.length =
      if (Atom.ofText text).isOk then none else some (.invalidNumber text))
    (hlevel : token.levelAfter stack.length = stack.length)
    (hpiece : token.piece = (Atom.ofText text).map .atom) :
    StepSpec stack token (match Atom.ofText text with
      | .ok value => deliver (.atom value) stack
      | .error fault => .fail fault) := by
  cases hread : Atom.ofText text with
  | ok value =>
      apply stepSpec_deliver (.atom value)
      · simpa [hread, Except.isOk, Except.toBool] using hfault
      · exact hlevel.symm
      · simpa [hread, Except.map] using hpiece
      · simp [pieces]
  | error fault =>
      apply StepSpec.fail
      rw [hfault, hread, Atom.ofText_eq_error hread]
      rfl

/-- Every step of the parser does what the levels and pieces say. -/
theorem stepSpec_step (stack : List (List Form)) (token : Token) :
    StepSpec stack token (step stack token) := by
  cases token with
  | opening => exact .resume rfl rfl rfl (by simp [openPieces, piecesAll])
  | closing =>
      cases stack with
      | nil => exact .fail rfl
      | cons inner outer =>
          apply stepSpec_deliver .closing
          · simp [Token.fault?]
          · simp [Token.levelAfter]
          · rfl
          · simp [openPieces, pieces]
  | quoted text => exact stepSpec_atom rfl rfl rfl
  | word text => exact stepSpec_atom rfl rfl rfl

theorem parseFrom_cons (stack : List (List Form)) (token : Token) (rest : List Token) :
    parseFrom stack (token :: rest) =
      match step stack token with
      | .resume next => parseFrom next rest
      | .complete form => (.ok (some form), rest)
      | .fail fault => (.error fault, rest) := rfl

/-- The tokens that a form is read from spell its layout, less what was read
of it before. -/
theorem spell_of_parseFrom {stack : List (List Form)} {tokens rest : List Token} {form : Form}
    (h : parseFrom stack tokens = (.ok (some form), rest)) :
    ∃ used pieces, tokens = used ++ rest ∧ Token.Spell used pieces ∧
      form.pieces = openPieces stack ++ pieces := by
  induction tokens generalizing stack with
  | nil =>
      simp only [parseFrom] at h
      split at h <;> simp at h
  | cons token tokens ih =>
      rw [parseFrom_cons] at h
      have hstep := stepSpec_step stack token
      split at h
      next next hnext =>
        rw [hnext] at hstep
        cases hstep with
        | resume _ _ hread hlayout =>
            obtain ⟨used, pieces, rfl, hused, hform⟩ := ih h
            refine ⟨token :: used, _ :: pieces, rfl, Token.spell_cons.mpr ⟨hread, hused⟩, ?_⟩
            simp [hform, hlayout]
      next complete hcomplete =>
        obtain ⟨rfl, rfl⟩ : complete = form ∧ tokens = rest := by simpa using h
        rw [hcomplete] at hstep
        cases hstep with
        | complete _ _ hread hlayout =>
            exact ⟨[token], [_], rfl, Token.spell_cons.mpr ⟨hread, Token.spell_nil⟩, hlayout⟩
      next => simp at h

def parseBehind (form : Form) (stack : List (List Form)) (rest : List Token) : Parse :=
  match deliver form stack with
  | .resume next => parseFrom next rest
  | .complete form => (.ok (some form), rest)
  | .fail fault => (.error fault, rest)

/-- The elements of a list that are read one after another end up, in reverse
order, on top of the innermost open list. -/
theorem parseFrom_elements {elements : List Form} {tokens : List Token}
    (hread : ∀ form ∈ elements, ∀ stack used rest, Token.Spell used form.pieces →
      parseFrom stack (used ++ rest) = parseBehind form stack rest)
    (h : Token.Spell tokens (piecesAll elements)) (inner : List Form) (outer : List (List Form))
    (rest : List Token) :
    parseFrom (inner :: outer) (tokens ++ rest) =
      parseFrom ((elements.reverse ++ inner) :: outer) rest := by
  induction elements generalizing tokens inner with
  | nil =>
      have hnil : tokens = [] := by simpa [Token.Spell, piecesAll] using h
      simp [hnil]
  | cons form forms ih =>
      obtain ⟨before, after, rfl, hbefore, hafter⟩ := Token.spell_append.mp h
      rw [List.append_assoc, hread form List.mem_cons_self _ _ _ hbefore]
      simp only [parseBehind, deliver]
      rw [ih (fun other hother => hread other (List.mem_cons_of_mem _ hother)) hafter]
      simp

/-- What a token does depends only on its piece. -/
theorem step_of_piece {token : Token} {piece : Piece} (h : token.piece = .ok piece)
    (stack : List (List Form)) :
    step stack token =
      match piece, stack with
      | .opening, _ => .resume ([] :: stack)
      | .closing, [] => .fail .unmatchedClose
      | .closing, inner :: outer => deliver (.list inner.reverse) outer
      | .atom value, _ => deliver (.atom value) stack := by
  cases token with
  | opening =>
      cases h
      rfl
  | closing =>
      cases h
      cases stack <;> rfl
  | quoted text | word text =>
      obtain ⟨value, hvalue, rfl⟩ := Atom.map_ofText_eq_ok h
      simp only [step, hvalue]

/-- Tokens that spell the layout of a form are read as that form, whatever
lists are open and whatever follows. -/
theorem parseFrom_of_spell (form : Form) (stack : List (List Form)) (tokens rest : List Token)
    (h : Token.Spell tokens form.pieces) :
    parseFrom stack (tokens ++ rest) = parseBehind form stack rest := by
  induction form using Form.induction generalizing stack tokens rest with
  | atom value =>
      obtain ⟨token, rfl, hpiece⟩ := Token.exists_of_spell_singleton h
      simp [parseFrom_cons, step_of_piece hpiece, parseBehind]
  | list elements ih =>
      obtain ⟨first, others, rfl, hfirst, hothers⟩ := Token.exists_of_spell_cons h
      obtain ⟨inside, ending, rfl, hinside, hending⟩ := Token.spell_append.mp hothers
      obtain ⟨last, rfl, hlast⟩ := Token.exists_of_spell_singleton hending
      rw [List.cons_append, parseFrom_cons, step_of_piece hfirst]
      simp only [List.append_assoc]
      rw [parseFrom_elements ih hinside, List.cons_append, parseFrom_cons, step_of_piece hlast]
      simp [parseBehind]

theorem parse_of_spell {form : Form} {tokens : List Token} (h : Token.Spell tokens form.pieces) :
    parse tokens = (.ok (some form), []) := by
  simpa [parse, parseBehind, deliver] using parseFrom_of_spell form [] tokens [] h

/-- The forms that are read when the first of them is already under way. -/
def parseAllFrom (stack : List (List Form)) (tokens : List Token) : Except Fault (List Form) :=
  match parseFrom stack tokens with
  | (.error fault, _) => .error fault
  | (.ok none, _) => .ok []
  | (.ok (some form), rest) => (parseAll rest).map (form :: ·)

theorem parseAll_eq_parseAllFrom (tokens : List Token) :
    parseAll tokens = parseAllFrom [] tokens := by
  rw [parseAll]
  unfold parseAllFrom parse
  split <;> simp_all

/-- Reading all forms token by token: where a form is complete, reading starts
anew with an empty stack. -/
theorem parseAllFrom_cons (stack : List (List Form)) (token : Token) (rest : List Token) :
    parseAllFrom stack (token :: rest) =
      match step stack token with
      | .resume next => parseAllFrom next rest
      | .complete form => (parseAllFrom [] rest).map (form :: ·)
      | .fail fault => .error fault := by
  unfold parseAllFrom
  rw [parseFrom_cons]
  cases step stack token with
  | resume next => rfl
  | complete form => exact congrArg (Except.map (form :: ·)) (parseAll_eq_parseAllFrom rest)
  | fail fault => rfl

/-- Reading goes on behind forms that are complete as if nothing stood before
them. -/
theorem parseAllFrom_append {stack : List (List Form)} {tokens : List Token} {forms : List Form}
    (h : parseAllFrom stack tokens = .ok forms) (more : List Token) :
    parseAllFrom stack (tokens ++ more) = (parseAll more).map (forms ++ ·) := by
  induction tokens generalizing stack forms with
  | nil =>
      cases stack with
      | nil =>
          obtain rfl : [] = forms := Except.ok.inj h
          rw [List.nil_append, ← parseAll_eq_parseAllFrom]
          cases parseAll more <;> rfl
      | cons inner outer => cases h
  | cons token rest ih =>
      rw [List.cons_append, parseAllFrom_cons]
      rw [parseAllFrom_cons] at h
      cases hstep : step stack token with
      | resume next =>
          rw [hstep] at h
          exact ih h
      | complete form =>
          rw [hstep] at h
          cases hrest : parseAllFrom [] rest with
          | error fault =>
              rw [hrest] at h
              cases h
          | ok later =>
              rw [hrest] at h
              obtain rfl : form :: later = forms := Except.ok.inj h
              simp only [ih hrest]
              cases parseAll more <;> rfl
      | fail fault =>
          rw [hstep] at h
          cases h

theorem parseAll_append {tokens : List Token} {forms : List Form}
    (h : parseAll tokens = .ok forms) (more : List Token) :
    parseAll (tokens ++ more) = (parseAll more).map (forms ++ ·) := by
  rw [parseAll_eq_parseAllFrom] at h ⊢
  exact parseAllFrom_append h more

inductive ReadSpec (stack : List (List Form)) (tokens : List Token) :
    Except Fault (List Form) → Prop where
  | fault {fault : Fault} (found : Token.firstFault stack.length tokens = some fault) :
      ReadSpec stack tokens (.error fault)
  | unfinished (valid : Token.firstFault stack.length tokens = none)
      (level : 0 < Token.finalLevel stack.length tokens) :
      ReadSpec stack tokens (.error .unmatchedOpen)
  | forms {forms : List Form} {pieces : List Piece}
      (valid : Token.firstFault stack.length tokens = none)
      (level : Token.finalLevel stack.length tokens = 0) (read : Token.Spell tokens pieces)
      (layout : piecesAll forms = openPieces stack ++ pieces) : ReadSpec stack tokens (.ok forms)

/-- One more token in front. The step says how it changes the level and the
layout, and the rest is known for the stack that it leaves. -/
theorem ReadSpec.cons {stack next : List (List Form)} {token : Token} {rest : List Token}
    {piece : Piece} {result : Except Fault (List Form)} (h : ReadSpec next rest result)
    (earlier : List Form) (hvalid : token.fault? stack.length = none)
    (hlevel : next.length = token.levelAfter stack.length) (hread : token.piece = .ok piece)
    (hlayout : piecesAll earlier ++ openPieces next = openPieces stack ++ [piece]) :
    ReadSpec stack (token :: rest) (result.map (earlier ++ ·)) := by
  have hfault : Token.firstFault stack.length (token :: rest) =
      Token.firstFault next.length rest := by
    rw [Token.firstFault_cons hvalid, hlevel]
  have hfinal : Token.finalLevel stack.length (token :: rest) =
      Token.finalLevel next.length rest := by
    rw [hlevel]
    rfl
  cases h with
  | fault hfound => exact .fault (hfault.trans hfound)
  | unfinished hnone hopen => exact .unfinished (hfault.trans hnone) (hfinal ▸ hopen)
  | @forms forms pieces hnone hclosed hspell hforms =>
      refine .forms (hfault.trans hnone) (hfinal.trans hclosed)
        (Token.spell_cons.mpr ⟨hread, hspell⟩) ?_
      calc piecesAll (earlier ++ forms)
          = (piecesAll earlier ++ openPieces next) ++ pieces := by simp [hforms]
        _ = openPieces stack ++ piece :: pieces := by simp [hlayout]

/-- Reading all forms from any stack on meets its specification, by induction
over the tokens with the specification of one step. -/
theorem readSpec_parseAllFrom (stack : List (List Form)) (tokens : List Token) :
    ReadSpec stack tokens (parseAllFrom stack tokens) := by
  -- for every stack: a token changes it, or completes a form and reading starts anew without one
  induction tokens generalizing stack with
  | nil =>
      cases stack with
      | nil => exact .forms rfl rfl Token.spell_nil rfl
      | cons inner outer => exact .unfinished rfl (Nat.succ_pos _)
  | cons token rest ih =>
      have hstep := stepSpec_step stack token
      rw [parseAllFrom_cons]
      cases hnext : step stack token with
      | resume next =>
          rw [hnext] at hstep
          cases hstep with
          | resume hvalid hlevel hread hlayout =>
              have hrest : ReadSpec stack (token :: rest) ((parseAllFrom next rest).map id) :=
                (ih next).cons [] hvalid hlevel hread hlayout
              rwa [Except.map_id] at hrest
      | complete form =>
          rw [hnext] at hstep
          cases hstep with
          | complete hvalid hlevel hread hlayout =>
              refine (ih []).cons [form] hvalid hlevel.symm hread ?_
              simpa [piecesAll, openPieces] using hlayout
      | fail fault =>
          rw [hnext] at hstep
          cases hstep with
          | fail hfound => exact .fault (by simp [Token.firstFault, hfound])

/-- Forms are read from tokens that spell their layouts, one after the other. -/
theorem spell_of_parseAll {tokens : List Token} {forms : List Form}
    (h : parseAll tokens = .ok forms) : Token.Spell tokens (piecesAll forms) := by
  have hspec := readSpec_parseAllFrom [] tokens
  rw [← parseAll_eq_parseAllFrom, h] at hspec
  cases hspec with
  | forms _ _ hspell hforms =>
      rw [hforms]
      exact hspell

theorem parseAll_of_parse_error {tokens : List Token} {fault : Fault}
    (h : (parse tokens).1 = .error fault) : parseAll tokens = .error fault := by
  rw [parseAll_eq_parseAllFrom, parseAllFrom]
  rw [parse] at h
  cases hparse : parseFrom [] tokens with
  | mk result rest =>
      rw [hparse] at h
      obtain rfl : result = .error fault := h
      rfl

theorem isSyntactic_of_parseAll_error {tokens : List Token} {fault : Fault}
    (h : parseAll tokens = .error fault) : fault.isSyntactic = true := by
  have hspec := readSpec_parseAllFrom [] tokens
  rw [← parseAll_eq_parseAllFrom, h] at hspec
  cases hspec with
  | fault hfound => rcases Token.firstFault_cases hfound with rfl | ⟨text, rfl⟩ <;> rfl
  | unfinished _ _ => rfl

def Whole (tokens : List Token) : Prop := ∃ forms, parseAll tokens = .ok forms

/-- Tokens make complete forms just if the scan finds no fault and ends outside
of all lists. -/
theorem whole_iff {tokens : List Token} :
    Whole tokens ↔ Token.firstFault 0 tokens = none ∧ Token.finalLevel 0 tokens = 0 := by
  have hspec := readSpec_parseAllFrom [] tokens
  rw [← parseAll_eq_parseAllFrom] at hspec
  unfold Whole
  generalize parseAll tokens = result at hspec
  cases hspec with
  | fault hfound =>
      rw [List.length_nil] at hfound
      simp [hfound]
  | unfinished hnone hopen =>
      rw [List.length_nil] at hopen
      simp [Nat.ne_of_gt hopen]
  | forms hnone hclosed _ _ =>
      rw [List.length_nil] at hnone hclosed
      simp [hnone, hclosed]

instance : DecidablePred Whole := fun _ => decidable_of_iff _ whole_iff.symm

/-- Behind complete forms there are complete forms just if they are complete by
themselves. -/
theorem whole_append_iff {first : List Token} (h : Whole first) (second : List Token) :
    Whole (first ++ second) ↔ Whole second := by
  obtain ⟨forms, hforms⟩ := h
  unfold Whole
  rw [parseAll_append hforms]
  cases parseAll second with
  | ok more => simp [Except.map]
  | error fault => simp [Except.map]

@[simp] theorem parseAll_nil : parseAll [] = .ok [] := by
  rw [parseAll_eq_parseAllFrom]
  rfl

theorem parseAll_of_parse {tokens rest : List Token} {form : Form}
    (h : parse tokens = (.ok (some form), rest)) :
    parseAll tokens = (parseAll rest).map (form :: ·) := by
  rw [parse] at h
  rw [parseAll_eq_parseAllFrom, parseAllFrom, h]

/-- Tokens that spell the layouts of some forms are read as these. -/
theorem parseAll_of_spell {forms : List Form} {tokens : List Token}
    (h : Token.Spell tokens (piecesAll forms)) : parseAll tokens = .ok forms := by
  induction forms generalizing tokens with
  | nil =>
      obtain rfl : tokens = [] := List.map_eq_nil_iff.mp h
      exact parseAll_nil
  | cons form rest ih =>
      obtain ⟨before, after, rfl, hbefore, hafter⟩ := Token.spell_append.mp h
      have hparse : parse (before ++ after) = (.ok (some form), after) :=
        parseFrom_of_spell form [] before after hbefore
      rw [parseAll_of_parse hparse, ih hafter]
      rfl

/-- Tokens that stand behind others and among which no form ends, unless with
the last of them. -/
def Unbroken (before tokens : List Token) : Prop :=
  ∀ first second, tokens = first ++ second → first ≠ [] → second ≠ [] → ¬ Whole (before ++ first)

/-- Whether a form ends among some tokens can be decided by their prefixes. -/
theorem unbroken_iff {before tokens : List Token} :
    Unbroken before tokens ↔
      ∀ i, i < tokens.length → i ≠ 0 → ¬ Whole (before ++ tokens.take i) := by
  constructor
  · intro h i hlength hi
    refine h (tokens.take i) (tokens.drop i) (List.take_append_drop i tokens).symm ?_ ?_
    · rw [Ne, List.take_eq_nil_iff, ← List.length_eq_zero_iff]
      omega
    · rw [Ne, List.drop_eq_nil_iff]
      omega
  · rintro h first second rfl hfirst hsecond
    have hfirst := List.length_pos_iff.mpr hfirst
    have hsecond := List.length_pos_iff.mpr hsecond
    have hprefix := h first.length
    rw [List.length_append, List.take_left] at hprefix
    exact hprefix (by omega) (by omega)

instance (before tokens : List Token) : Decidable (Unbroken before tokens) :=
  decidable_of_iff _ unbroken_iff.symm

/-- Complete forms of which none is complete before the end are one form. -/
theorem exists_parse_of_whole {tokens : List Token} (hwhole : Whole tokens)
    (hnonempty : tokens ≠ []) (hunbroken : Unbroken [] tokens) :
    ∃ form, parse tokens = (.ok (some form), []) := by
  obtain ⟨forms, hforms⟩ := hwhole
  cases hparse : parse tokens with
  | mk result rest =>
      match result with
      | .error fault =>
          have hfault := parseAll_of_parse_error (congrArg Prod.fst hparse)
          rw [hforms] at hfault
          cases hfault
      | .ok none =>
          have hnone : parseAll tokens = .ok [] := by
            rw [parse] at hparse
            rw [parseAll_eq_parseAllFrom, parseAllFrom, hparse]
          have hspell := spell_of_parseAll hnone
          exact absurd (List.map_eq_nil_iff.mp hspell) hnonempty
      | .ok (some form) =>
          obtain ⟨used, pieces, rfl, hused, hform⟩ := spell_of_parseFrom hparse
          have hread : parse used = (.ok (some form), []) := parse_of_spell (hform ▸ hused)
          have hsome : used ≠ [] := by
            rintro rfl
            cases hread
          have hcomplete : parseAll used = .ok [form] := by
            rw [parseAll_of_parse hread, parseAll_nil]
            rfl
          cases rest with
          | nil => exact ⟨form, rfl⟩
          | cons token more =>
              exact absurd ⟨[form], hcomplete⟩ (hunbroken used (token :: more) rfl hsome (by simp))

/-- Reading all forms accepts just the balanced token sequences. It fails with
the leftmost fault, or else because lists are still open at the end; otherwise
its forms, written out again, are what the tokens stand for, place by place. -/
theorem parseAll_by_level (tokens : List Token) :
    match Token.firstFault 0 tokens with
    | some fault => parseAll tokens = .error fault
    | none =>
        if 0 < Token.finalLevel 0 tokens then parseAll tokens = .error .unmatchedOpen
        else ∃ forms, parseAll tokens = .ok forms ∧ Token.Spell tokens (piecesAll forms) := by
  have hspec := readSpec_parseAllFrom [] tokens
  rw [← parseAll_eq_parseAllFrom] at hspec
  generalize hresult : parseAll tokens = result at hspec ⊢
  cases hspec with
  | fault hfound =>
      rw [List.length_nil] at hfound
      rw [hfound]
  | unfinished hnone hopen =>
      rw [List.length_nil] at hnone hopen
      simp only [hnone, hopen, if_true]
  | @forms forms _ hnone hclosed _ _ =>
      rw [List.length_nil] at hnone hclosed
      rw [hnone, hclosed]
      exact ⟨forms, rfl, spell_of_parseAll hresult⟩

end Form

end FlatLisp
