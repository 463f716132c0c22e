import FlatLisp.Form.Printer
import FlatLisp.Proofs.Layout
import FlatLisp.Proofs.IntegerLiteral

/-!
Reading a form back from its text. Forms that were read from a source text
can be printed and read again; what changes is that each parenthesis inside a
quoted text gets one more blank on both sides. A literal without its closing
quote is read as a symbol, which is never inside a list, and its text is
padded in the same way and then trimmed at its end.

The main statement is `parse_lex_source`.
-/

namespace FlatLisp

open FlatLisp.Token (IsWord AtBreak Complete Shaped Spell lexChars)

def Token.padText (text : String) : String := String.ofList (pad text.toList)

def Atom.padTexts : Atom → Atom
  | .text content => .text (Token.padText content)
  | value => value

def Piece.padTexts : Piece → Piece
  | .atom value => .atom value.padTexts
  | piece => piece

def Atom.token : Atom → Token
  | .text content => .quoted ("\"" ++ content ++ "\"")
  | value => .word value.source

def Piece.token : Piece → Token
  | .opening => .opening
  | .closing => .closing
  | .atom value => value.token

namespace Form

mutual

def padTexts : Form → Form
  | .atom value => .atom value.padTexts
  | .list elements => .list (padTextsAll elements)

def padTextsAll : List Form → List Form
  | [] => []
  | form :: rest => form.padTexts :: padTextsAll rest

end

/-- The form that is read from the text of a form. A symbol that starts with a
quote comes from a literal without its closing quote. -/
def padded : Form → Form
  | .atom (.symbol name) =>
      if name.toList.head? = some '"' then symbol (Text.trimEnd (Token.padText name))
      else symbol name
  | form => form.padTexts

theorem piecesAll_padTextsAll {elements : List Form}
    (h : ∀ form ∈ elements, form.padTexts.pieces = form.pieces.map Piece.padTexts) :
    piecesAll (padTextsAll elements) = (piecesAll elements).map Piece.padTexts := by
  induction elements with
  | nil => rfl
  | cons form rest ih =>
      simp only [padTextsAll, piecesAll, List.map_append]
      rw [h form List.mem_cons_self, ih fun other hother => h other (List.mem_cons_of_mem _ hother)]

theorem pieces_padTexts (form : Form) : form.padTexts.pieces = form.pieces.map Piece.padTexts := by
  induction form using Form.induction with
  | atom value => rfl
  | list elements ih =>
      simp only [padTexts, pieces, List.map_cons, List.map_append, piecesAll_padTextsAll ih]
      rfl

end Form

/-- Atoms that can be printed anywhere in a text and be read again. -/
def Atom.Plain : Atom → Prop
  | .number value => ofText value.text = .ok (.number value)
  | .text content => '"' ∉ content.toList
  | .symbol name => IsWord name.toList ∧ ofText name = .ok (.symbol name)

instance : DecidablePred Atom.Plain
  | .number value => inferInstanceAs (Decidable (Atom.ofText value.text = _))
  | .text content => inferInstanceAs (Decidable ('"' ∉ content.toList))
  | .symbol _ => inferInstanceAs (Decidable (_ ∧ _))

namespace Atom

/-- An atom that is read from a word can be printed and read again. An integer
prints as a literal of its own value, a symbol as its word; for floating-point
numbers it is assumed. -/
theorem plain_of_word {text : List Char} {value : Atom} (hword : IsWord text)
    (hread : ofText (String.ofList text) = .ok value)
    (hfloat : ∀ x, value = .number (.float x) →
      ofText (Number.text (.float x)) = .ok (.number (.float x))) : value.Plain := by
  have hvalue := hread
  rw [ofText, String.toList_ofList, Text.unquote?_of_head hword.unquoted] at hvalue
  by_cases hnumeral : Text.isNumeral text = true
  · cases hnumber : Number.ofText? (String.ofList text) with
    | none => simp [hnumeral, hnumber] at hvalue
    | some number =>
        obtain rfl : .number number = value := by simpa [hnumeral, hnumber] using hvalue
        cases number with
        | integer i => exact ofText_integer i
        | float x => exact hfloat x rfl
  · obtain rfl : .symbol (String.ofList text) = value := by simpa [hnumeral] using hvalue
    exact ⟨by rwa [String.toList_ofList], hread⟩

theorem ofText_literal {content : List Char} (h : '"' ∉ content) :
    ofText (String.ofList ('"' :: (content ++ ['"']))) = .ok (.text (String.ofList content)) := by
  simp [ofText, Text.unquote?, h]

/-- A literal without its closing quote is read as a symbol, since its text does
not end in a quote. -/
theorem ofText_openLiteral {content : List Char} (h : '"' ∉ content) :
    ofText (String.ofList ('"' :: content)) = .ok (.symbol (String.ofList ('"' :: content))) := by
  have hunquoted : Text.unquote? ('"' :: content) = none := by
    have hlast : content.getLast? ≠ some '"' := fun hlast => h (List.mem_of_getLast? hlast)
    simp [Text.unquote?, hlast]
  have hnumeral : ¬ Text.isNumeral ('"' :: content) = true := fun hnumeral =>
    (Text.isWord_of_isNumeral hnumeral).unquoted rfl
  simp [ofText, hunquoted, hnumeral]

theorem quotes_eq_ofList (content : String) :
    "\"" ++ content ++ "\"" = String.ofList ('"' :: (content.toList ++ ['"'])) := by
  apply String.toList_inj.mp
  simp

/-- The text of a plain atom gives back its token, if what follows ends a word.
-/
theorem Plain.lexChars_source {value : Atom} (h : value.Plain) {rest : List Char}
    (hrest : AtBreak rest) :
    lexChars (value.source.toList ++ rest) = value.padTexts.token :: lexChars rest := by
  cases value with
  | number number =>
      have hword : IsWord number.text.toList := Text.isWord_of_isNumeral (numeral_of_ofText h).1
      simpa [padTexts, token, source] using Token.lexChars_word hword hrest
  | text content =>
      have hliteral := Token.lexChars_literal h rest
      simpa [padTexts, token, source, Token.padText, quotes_eq_ofList] using hliteral
  | symbol name => simpa [padTexts, token, source] using Token.lexChars_word h.1 hrest

/-- The token of a plain atom is read as the atom with its text padded. -/
theorem Plain.piece_token {value : Atom} (h : value.Plain) :
    value.padTexts.token.piece = .ok (.atom value.padTexts) := by
  have hread : ofText value.padTexts.token.text = .ok value.padTexts := by
    cases value with
    | number number => exact h
    | text content =>
        have hliteral := ofText_literal (Token.quote_not_mem_pad h)
        simpa [padTexts, token, Token.text, Token.padText, quotes_eq_ofList] using hliteral
    | symbol name => exact h.2
  cases value <;> exact congrArg (Except.map Piece.atom) hread

end Atom

namespace Form

def Plain (form : Form) : Prop := ∀ value, form.HasAtom value → value.Plain

theorem atBreak_sourceRest (elements : List Form) {rest : List Char} (hrest : AtBreak rest) :
    AtBreak ((sourceRest elements).toList ++ rest) := by
  cases elements with
  | nil => simpa [sourceRest] using hrest
  | cons form elements =>
      intro c hc
      obtain rfl : ' ' = c := by simpa [sourceRest] using hc
      decide

/-- The elements of a list, each behind a blank, give the tokens of their
layouts one after the other: a blank ends whatever stands before it. -/
theorem lexChars_sourceRest {elements : List Form}
    (h : ∀ form ∈ elements, ∀ rest, AtBreak rest →
      lexChars (form.source.toList ++ rest) =
        form.padTexts.pieces.map Piece.token ++ lexChars rest)
    {rest : List Char} (hrest : AtBreak rest) :
    lexChars ((sourceRest elements).toList ++ rest) =
      (piecesAll (padTextsAll elements)).map Piece.token ++ lexChars rest := by
  induction elements with
  | nil => simp [sourceRest, padTextsAll, piecesAll]
  | cons form elements ih =>
      have hblank : Text.isBlank ' ' = true := by decide
      have hform := h form List.mem_cons_self _ (atBreak_sourceRest elements hrest)
      have helements := ih fun other hother => h other (List.mem_cons_of_mem _ hother)
      simp only [sourceRest, padTextsAll, piecesAll, String.toList_append, List.append_assoc,
        List.map_append]
      rw [← helements, ← hform]
      exact Token.lexChars_blank hblank _

/-- The text of a plain form is cut into the tokens of its layout. What follows
has to end a word, as the blanks and parentheses between elements do. -/
theorem lexChars_source {form : Form} (h : form.Plain) (rest : List Char) (hrest : AtBreak rest) :
    lexChars (form.source.toList ++ rest) =
      form.padTexts.pieces.map Piece.token ++ lexChars rest := by
  induction form using Form.induction generalizing rest with
  | atom value =>
      have hvalue : value.Plain := h value List.mem_cons_self
      exact hvalue.lexChars_source hrest
  | list elements ih =>
      have hread : ∀ form ∈ elements, ∀ rest, AtBreak rest →
          lexChars (form.source.toList ++ rest) =
            form.padTexts.pieces.map Piece.token ++ lexChars rest := fun form hform rest hrest =>
        ih form hform (fun value hvalue => h value (hasAtom_list hform hvalue)) rest hrest
      have hclosing : AtBreak (')' :: rest) := Token.atBreak_cons (by decide) rest
      cases elements with
      | nil => exact Token.lexChars_opening _
      | cons first others =>
          have hothers := lexChars_sourceRest
            (fun form hform => hread form (List.mem_cons_of_mem _ hform)) hclosing
          have hfirst := hread first List.mem_cons_self _ (atBreak_sourceRest others hclosing)
          have hsource : (list (first :: others)).source.toList ++ rest =
              '(' :: (first.source.toList ++ ((sourceRest others).toList ++ ')' :: rest)) := by
            simp [source]
          rw [hsource, Token.lexChars_opening, hfirst, hothers, Token.lexChars_closing]
          simp [padTexts, padTextsAll, pieces, piecesAll, Piece.token]

/-- The tokens of a plain form spell its layout with all texts padded. -/
theorem Plain.spell_tokens {form : Form} (h : form.Plain) :
    Spell (form.padTexts.pieces.map Piece.token) form.padTexts.pieces := by
  rw [Spell, List.map_map, pieces_padTexts, List.map_map, List.map_map]
  apply List.map_congr_left
  intro piece hpiece
  cases piece with
  | opening => rfl
  | closing => rfl
  | atom value => exact (h value hpiece).piece_token

/-- The text of a plain form is read as that form with all texts padded. -/
theorem Plain.parse_source {form : Form} (h : form.Plain) :
    parse (Token.lex form.source) = (.ok (some form.padTexts), []) := by
  have htokens : Token.lex form.source = form.padTexts.pieces.map Piece.token := by
    have hlex := lexChars_source h [] Token.atBreak_nil
    rw [List.append_nil] at hlex
    rw [Token.lex_eq_lexChars, hlex]
    exact List.append_nil _
  rw [htokens]
  exact parse_of_spell h.spell_tokens

end Form

/-- A complete token gives a plain atom. A word has no character that would end
it, and the content of a literal has no quote. -/
theorem Token.Complete.plain {token : Token} (h : token.Complete) {value : Atom}
    (hread : token.piece = .ok (.atom value))
    (hfloat : ∀ x, value = .number (.float x) →
      Atom.ofText (Number.text (.float x)) = .ok (.number (.float x))) : value.Plain := by
  cases h with
  | opening => cases hread
  | closing => cases hread
  | word hword =>
      obtain ⟨other, hother, hsame⟩ := Atom.map_ofText_eq_ok hread
      obtain rfl : value = other := by simpa using hsame
      exact Atom.plain_of_word hword hother hfloat
  | @literal content hcontent =>
      obtain ⟨other, hother, hsame⟩ := Atom.map_ofText_eq_ok hread
      obtain rfl : value = other := by simpa using hsame
      rw [Atom.ofText_literal hcontent] at hother
      obtain rfl : .text (String.ofList content) = value := by simpa using hother
      simpa [Atom.Plain] using hcontent

namespace Form

/-- Reading gives a form: it is the first one, or one of all that are read. -/
def ReadFrom (form : Form) (tokens : List Token) : Prop :=
  (∃ rest, parse tokens = (.ok (some form), rest)) ∨
    ∃ forms, parseAll tokens = .ok forms ∧ form ∈ forms

/-- Reading takes a form from a stretch of the tokens that spells its layout. -/
theorem ReadFrom.exists_used {form : Form} {tokens : List Token} (h : form.ReadFrom tokens) :
    ∃ before used after, tokens = before ++ (used ++ after) ∧ Spell used form.pieces := by
  rcases h with ⟨rest, hparse⟩ | ⟨forms, hparse, hform⟩
  · obtain ⟨used, pieces, htokens, hused, hpieces⟩ := spell_of_parseFrom hparse
    rw [openPieces, List.nil_append] at hpieces
    exact ⟨[], used, rest, htokens, hpieces ▸ hused⟩
  · obtain ⟨earlier, later, rfl⟩ := List.append_of_mem hform
    have hspell := spell_of_parseAll hparse
    rw [piecesAll_append, piecesAll] at hspell
    obtain ⟨before, others, rfl, -, hothers⟩ := Token.spell_append.mp hspell
    obtain ⟨used, after, rfl, hused, -⟩ := Token.spell_append.mp hothers
    exact ⟨before, used, after, rfl, hused⟩

/-- The atoms of a form that was read from a source text come from complete
tokens, or the form is the symbol of a literal without its closing quote. Such
a literal is the last token, and so it is in no list: that would need a closing
parenthesis behind it. -/
theorem ReadFrom.complete_or_openLiteral {form : Form} {source : String}
    (h : form.ReadFrom (Token.lex source)) :
    (∀ value, form.HasAtom value → ∃ token, Complete token ∧ token.piece = .ok (.atom value)) ∨
      ∃ content, '"' ∉ content ∧
        Text.trimEnd (String.ofList ('"' :: content)) = String.ofList ('"' :: content) ∧
        form = symbol (String.ofList ('"' :: content)) := by
  obtain ⟨before, used, after, htokens, hused⟩ := h.exists_used
  have hshaped : Shaped (before ++ (used ++ after)) := htokens ▸ Token.shaped_lexChars _
  replace hshaped : Shaped (used ++ after) := hshaped.of_append
  cases form with
  | atom value =>
      obtain ⟨token, rfl, hread⟩ := Token.exists_of_spell_singleton hused
      rw [List.singleton_append] at hshaped
      cases hshaped with
      | cons hcomplete _ =>
          left
          intro other hother
          obtain rfl : other = value := by simpa [HasAtom, pieces] using hother
          exact ⟨token, hcomplete, hread⟩
      | @openLiteral content hcontent htrim =>
          right
          obtain ⟨other, hother, hsame⟩ := Atom.map_ofText_eq_ok hread
          rw [Atom.ofText_openLiteral hcontent] at hother
          refine ⟨content, hcontent, htrim, ?_⟩
          rw [Piece.atom.inj hsame, ← Except.ok.inj hother]
          rfl
  | list elements =>
      left
      have hsplit : (list elements).pieces = (.opening :: piecesAll elements) ++ [.closing] := rfl
      rw [hsplit] at hused
      obtain ⟨front, ending, rfl, hfront, hending⟩ := Token.spell_append.mp hused
      obtain ⟨last, rfl, -⟩ := Token.exists_of_spell_singleton hending
      rw [List.append_assoc, List.singleton_append] at hshaped
      intro value hvalue
      have hpiece : .atom value ∈ .opening :: piecesAll elements := by
        simpa [HasAtom, hsplit] using hvalue
      obtain ⟨token, htoken, hread⟩ := Token.exists_token_of_spell hfront hpiece
      exact ⟨token, hshaped.complete_of_mem token htoken, hread⟩

/-- A form that is read from a text is plain, or it is a symbol made from a
literal that was not closed, which can only come last. -/
theorem ReadFrom.plain_or_openLiteral {form : Form} {source : String}
    (h : form.ReadFrom (Token.lex source))
    (hfloats : ∀ x, form.HasAtom (.number (.float x)) →
      Atom.ofText (Number.text (.float x)) = .ok (.number (.float x))) :
    form.Plain ∨ ∃ content, '"' ∉ content ∧
      Text.trimEnd (String.ofList ('"' :: content)) = String.ofList ('"' :: content) ∧
      form = symbol (String.ofList ('"' :: content)) := by
  refine h.complete_or_openLiteral.imp_left fun hatoms value hvalue => ?_
  obtain ⟨token, hcomplete, hread⟩ := hatoms value hvalue
  exact hcomplete.plain hread fun x hx => hfloats x (hx ▸ hvalue)

theorem Plain.padded_eq {form : Form} (h : form.Plain) : form.padded = form.padTexts := by
  match form with
  | .atom (.symbol name) =>
      have hname : Atom.Plain (.symbol name) := h _ List.mem_cons_self
      exact if_neg hname.1.unquoted
  | .atom (.number _) => rfl
  | .atom (.text _) => rfl
  | .list _ => rfl

/-- Nothing is padded in a form whose texts have no parentheses. -/
theorem padTexts_eq_self {form : Form}
    (h : ∀ content, form.HasAtom (.text content) → '(' ∉ content.toList ∧ ')' ∉ content.toList) :
    form.padTexts = form := by
  induction form using Form.induction with
  | atom value =>
      cases value with
      | text content =>
          obtain ⟨hopening, hclosing⟩ := h content List.mem_cons_self
          simp [padTexts, Atom.padTexts, Token.padText, Token.pad_eq_self hopening hclosing]
      | number _ => rfl
      | symbol _ => rfl
  | list elements ih =>
      have helements : padTextsAll elements = elements := by
        replace ih : ∀ form ∈ elements, form.padTexts = form := fun form hform =>
          ih form hform fun content hcontent => h content (hasAtom_list hform hcontent)
        clear h
        induction elements with
        | nil => rfl
        | cons first others ihothers =>
            rw [padTextsAll, ih first List.mem_cons_self,
              ihothers fun form hform => ih form (List.mem_cons_of_mem _ hform)]
      rw [padTexts, helements]

/-- A symbol from an open literal is read again as a symbol, its text padded and
trimmed. -/
theorem parse_openLiteral {content : List Char} (h : '"' ∉ content) :
    parse (Token.lex (String.ofList ('"' :: content))) =
      (.ok (some (symbol (Text.trimEnd (String.ofList ('"' :: Token.pad content))))), []) := by
  obtain ⟨kept, hkept, htrim⟩ := Token.exists_trimEnd_quote (Token.quote_not_mem_pad h)
  rw [Token.lex_eq_lexChars, String.toList_ofList, Token.lexChars_openLiteral h, htrim]
  apply parse_of_spell
  rw [symbol, pieces, Token.spell_cons]
  refine ⟨?_, Token.spell_nil⟩
  rw [Token.piece, Atom.ofText_openLiteral hkept]
  rfl

/-- A form that was read from a source text is read back from its own text as
`padded` says, with no token left over, if each floating-point number in it is
read back from its text. It comes back unchanged if no quoted text in it has a
parenthesis, nor its name if it is a literal without its closing quote. -/
theorem parse_lex_source (source : String) (form : Form) (hread : form.ReadFrom (Token.lex source))
    (hfloats : ∀ x, form.HasAtom (.number (.float x)) →
      Atom.ofText (Number.text (.float x)) = .ok (.number (.float x))) :
    parse (Token.lex form.source) = (.ok (some form.padded), []) ∧
      ((∀ content, form.HasAtom (.text content) →
          '(' ∉ content.toList ∧ ')' ∉ content.toList) →
        (∀ name, form = symbol name → name.toList.head? = some '"' →
          '(' ∉ name.toList ∧ ')' ∉ name.toList) →
        form.padded = form) := by
  rcases hread.plain_or_openLiteral hfloats with hplain | ⟨content, hcontent, htrim, rfl⟩
  · rw [hplain.padded_eq]
    exact ⟨hplain.parse_source, fun htexts _ => padTexts_eq_self htexts⟩
  · have hpadded : (symbol (String.ofList ('"' :: content))).padded =
        symbol (Text.trimEnd (String.ofList ('"' :: Token.pad content))) := by
      simp [symbol, padded, Token.padText, Token.pad_cons, Token.padChar]
    rw [hpadded]
    refine ⟨parse_openLiteral hcontent, ?_⟩
    intro _ hname
    obtain ⟨hopening, hclosing⟩ := hname _ rfl (by simp)
    rw [String.toList_ofList] at hopening hclosing
    rw [Token.pad_eq_self (fun h => hopening (List.mem_cons_of_mem _ h))
      (fun h => hclosing (List.mem_cons_of_mem _ h)), htrim]

/-- A quote inside a word, a parenthesis inside a text, the least integer and a
floating-point number, all in one list. -/
theorem parse_lex_source_mixed :
    let form := list [symbol "a\"b", text "x ( ", number (.integer (-9223372036854775808)),
      list [number (.float (.ofRank false 4612811918334230528))]]
    form.ReadFrom (Token.lex "(a\"b \"x(\" -9223372036854775808 (2.5))") ∧
      parse (Token.lex form.source) = (.ok (some form.padded), []) := by
  intro form
  have hread : form.ReadFrom (Token.lex "(a\"b \"x(\" -9223372036854775808 (2.5))") :=
    .inl ⟨[], by decide +kernel⟩
  have hfloats : ∀ x, form.HasAtom (.number (.float x)) →
      Atom.ofText (Number.text (.float x)) = .ok (.number (.float x)) := by
    intro x hx
    obtain rfl : x = .ofRank false 4612811918334230528 := by
      simpa [form, HasAtom, pieces, piecesAll, symbol, number, text] using hx
    decide +kernel
  exact ⟨hread, (parse_lex_source _ form hread hfloats).1⟩

end Form

end FlatLisp
