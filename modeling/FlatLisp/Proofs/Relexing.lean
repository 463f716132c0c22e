import FlatLisp.Proofs.Rereading

/-!
Lexing the texts of tokens again. Written out with one blank between them, the
tokens of a source are cut at the same places as before: a word holds nothing
that would end it, a literal has just its two quotes, and one without its
closing quote comes last. Only the padding of parentheses inside literals is
repeated.

Lexing also loses nothing but blanks. Blanks are all that it puts into a text
or leaves out of one, so the texts of the tokens spell the source, apart from
its blanks.

The main statement is `tokens_lex_again`.
-/

namespace FlatLisp.Token

open FlatLisp.Text (isBlank trimEnd)

inductive Kind where
  | opening
  | closing
  | quoted
  | word
  deriving DecidableEq, Repr

def kind : Token → Kind
  | .opening => .opening
  | .closing => .closing
  | .quoted _ => .quoted
  | .word _ => .word

def HasParen (token : Token) : Prop :=
  token.kind = .quoted ∧ ('(' ∈ token.text.toList ∨ ')' ∈ token.text.toList)

instance (token : Token) : Decidable token.HasParen := inferInstanceAs (Decidable (_ ∧ _))

/-- A token with one more blank on both sides of each parenthesis in a literal.
A literal without its closing quote is then trimmed at its end. -/
def repadded : Token → Token
  | .quoted text =>
      .quoted (if (quoted text).isOpenLiteral then trimEnd (padText text) else padText text)
  | token => token

@[simp] theorem kind_repadded (token : Token) : token.repadded.kind = token.kind := by
  cases token <;> rfl

theorem padText_ofList (text : List Char) :
    padText (String.ofList text) = String.ofList (pad text) := by
  rw [padText, String.toList_ofList]

/-- A literal is padded again inside its quotes. -/
theorem repadded_literal (content : List Char) :
    repadded (.quoted (String.ofList ('"' :: (content ++ ['"'])))) =
      .quoted (String.ofList ('"' :: (pad content ++ ['"']))) := by
  have hclosed :
      (quoted (String.ofList ('"' :: (content ++ ['"'])))).isOpenLiteral = false := by
    simp [isOpenLiteral]
  have hpad : pad ('"' :: (content ++ ['"'])) = '"' :: (pad content ++ ['"']) := by
    rw [pad_cons, pad_append]
    rfl
  rw [repadded, hclosed, padText_ofList, hpad]
  rfl

theorem repadded_openLiteral {content : List Char} (h : '"' ∉ content) :
    repadded (.quoted (String.ofList ('"' :: content))) =
      .quoted (trimEnd (String.ofList ('"' :: pad content))) := by
  have hopen : (quoted (String.ofList ('"' :: content))).isOpenLiteral = true := by
    simp [isOpenLiteral, h]
  rw [repadded, if_pos hopen, padText_ofList, pad_cons]
  rfl

/-- The text of a complete token is cut off as one token again. -/
theorem Complete.lexChars_text {token : Token} (h : Complete token) {rest : List Char}
    (hrest : AtBreak rest) :
    lexChars (token.text.toList ++ rest) = token.repadded :: lexChars rest := by
  cases h with
  | opening => exact lexChars_opening rest
  | closing => exact lexChars_closing rest
  | word hword =>
      rw [text, String.toList_ofList, lexChars_word hword hrest]
      rfl
  | @literal content hcontent =>
      rw [repadded_literal, text, String.toList_ofList, List.cons_append, List.append_assoc,
        List.singleton_append, lexChars_literal hcontent]

/-- Tokens that were cut from a text are cut again from their own texts, with a
blank between any two of them. -/
theorem Shaped.lexChars_intercalate {tokens : List Token} (h : Shaped tokens) :
    lexChars (String.intercalate " " (tokens.map text)).toList = tokens.map repadded := by
  induction h with
  | nil => rfl
  | @cons token rest hcomplete hshaped ih =>
      cases rest with
      | nil =>
          have hlast := hcomplete.lexChars_text atBreak_nil
          rw [List.append_nil] at hlast
          rw [List.map_singleton, String.intercalate_singleton, hlast]
          rfl
      | cons next rest =>
          have hblank : isBlank ' ' = true := by decide
          have hjoined : (String.intercalate " " ((token :: next :: rest).map text)).toList =
              token.text.toList ++
                ' ' :: (String.intercalate " " ((next :: rest).map text)).toList := by
            rw [List.map_cons, List.map_cons, String.intercalate_cons_cons]
            simp
          rw [hjoined, hcomplete.lexChars_text (atBreak_cons (isBreak_iff.mpr (.inl hblank)) _),
            lexChars_blank hblank, ih]
          rfl
  | openLiteral hcontent _ =>
      rw [List.map_singleton, List.map_singleton, String.intercalate_singleton, text,
        String.toList_ofList, lexChars_openLiteral hcontent, repadded_openLiteral hcontent]

/-- Without parentheses there is nothing to pad. -/
theorem pad_eq_self_of_not_hasParen {letters content : List Char}
    (h : ¬ (quoted (String.ofList letters)).HasParen) (hcontent : content ⊆ letters) :
    pad content = content := by
  apply pad_eq_self
  · intro hmem
    exact h ⟨rfl, .inl (by simpa [text] using hcontent hmem)⟩
  · intro hmem
    exact h ⟨rfl, .inr (by simpa [text] using hcontent hmem)⟩

theorem Complete.repadded_eq_self {token : Token} (h : Complete token) (hparen : ¬ token.HasParen) :
    token.repadded = token := by
  cases h with
  | opening | closing | word _ => rfl
  | @literal content hcontent =>
      have hpad : pad content = content := pad_eq_self_of_not_hasParen hparen (by simp)
      rw [repadded_literal, hpad]

/-- A token without parentheses stays as it is, also an open literal, whose end
has been trimmed before. -/
theorem Shaped.repadded_eq_self {tokens : List Token} (h : Shaped tokens) :
    ∀ token ∈ tokens, ¬ token.HasParen → token.repadded = token := by
  induction h with
  | nil => simp
  | cons hcomplete hshaped ih =>
      rw [List.forall_mem_cons]
      exact ⟨hcomplete.repadded_eq_self, ih⟩
  | @openLiteral content hcontent htrim =>
      rw [List.forall_mem_singleton]
      intro hparen
      have hpad : pad content = content := pad_eq_self_of_not_hasParen hparen (by simp)
      rw [repadded_openLiteral hcontent, hpad, htrim]

def solid (text : List Char) : List Char := text.filter fun c => !isBlank c

@[simp] theorem solid_append (first second : List Char) :
    solid (first ++ second) = solid first ++ solid second :=
  List.filter_append ..

theorem solid_cons_of_isBlank {c : Char} (h : isBlank c = true) (rest : List Char) :
    solid (c :: rest) = solid rest :=
  List.filter_cons_of_neg (by simp [h])

theorem solid_padChar (c : Char) : solid (padChar c) = solid [c] := by
  unfold padChar
  split
  next hparen => rcases hparen with rfl | rfl <;> rfl
  next => rfl

theorem solid_pad (text : List Char) : solid (pad text) = solid text := by
  induction text with
  | nil => rfl
  | cons c rest ih =>
      rw [pad_cons, solid_append, solid_padChar, ih, ← solid_append, List.singleton_append]

/-- Trimming drops blanks only. -/
theorem solid_rdropWhile (text : List Char) : solid (text.rdropWhile isBlank) = solid text := by
  induction text using List.reverseRecOn with
  | nil => rfl
  | append_singleton text c ih =>
      by_cases hblank : isBlank c = true
      · rw [List.rdropWhile_concat_pos _ _ _ hblank, ih, solid_append,
          solid_cons_of_isBlank hblank]
        simp [solid]
      · rw [List.rdropWhile_concat_neg _ _ _ hblank]

/-- The tokens of a text spell it, apart from its blanks. -/
theorem solid_texts (source : List Char) :
    solid ((lexChars source).flatMap fun token => token.text.toList) = solid source := by
  -- part by part: what a part adds to the texts of the tokens is the part itself, up to blanks
  induction source using text_induction with
  | nil => rfl
  | blank c rest hblank ih => rw [lexChars_blank hblank, ih, solid_cons_of_isBlank hblank]
  | opening rest ih =>
      rw [lexChars_opening, List.flatMap_cons, solid_append, ih]
      rfl
  | closing rest ih =>
      rw [lexChars_closing, List.flatMap_cons, solid_append, ih]
      rfl
  | word letters rest hword hbreak ih =>
      rw [lexChars_word hword hbreak, List.flatMap_cons, solid_append, ih, text,
        String.toList_ofList, solid_append]
  | literal content rest hcontent ih =>
      have hparts : '"' :: (content ++ '"' :: rest) = ['"'] ++ content ++ ['"'] ++ rest := by simp
      have htext : (quoted (String.ofList ('"' :: (pad content ++ ['"'])))).text.toList =
          ['"'] ++ pad content ++ ['"'] := by simp [text]
      rw [lexChars_literal hcontent, List.flatMap_cons, htext, hparts]
      simp only [solid_append, solid_pad, ih]
  | openLiteral content hcontent =>
      rw [lexChars_openLiteral hcontent, List.flatMap_singleton, text, trimEnd_ofList,
        String.toList_ofList, solid_rdropWhile]
      exact congrArg (solid ['"'] ++ ·) (solid_pad content)

/-- The tokens of a source, written with one blank between them, are lexed to
the same tokens, as many and of the same kinds; only the parentheses inside
literals get their padding once more, so a source without such a parenthesis
gives just the same tokens. Blanks apart, the texts of the tokens are the
source, character by character. -/
theorem tokens_lex_again (source : String) :
    let tokens := lex source
    let again := lex (String.intercalate " " (tokens.map text))
    again = tokens.map repadded ∧
      again.length = tokens.length ∧ again.map kind = tokens.map kind ∧
      (∀ token ∈ tokens, token.repadded ≠ token → token.HasParen) ∧
      ((∀ token ∈ tokens, ¬ token.HasParen) → again = tokens) ∧
      solid (String.join (tokens.map text)).toList = solid source.toList := by
  intro tokens again
  have hshaped : Shaped tokens := shaped_lexChars _
  have hagain : again = tokens.map repadded := hshaped.lexChars_intercalate
  have hsame := hshaped.repadded_eq_self
  refine ⟨hagain, ?_, ?_, ?_, ?_, ?_⟩
  · rw [hagain, List.length_map]
  · rw [hagain, List.map_map]
    exact List.map_congr_left fun token _ => kind_repadded token
  · intro token hmem hchanged
    by_contra hparen
    exact hchanged (hsame token hmem hparen)
  · intro hparens
    rw [hagain, List.map_congr_left fun token hmem => hsame token hmem (hparens token hmem)]
    exact List.map_id _
  · rw [String.toList_join, List.flatMap_map]
    exact solid_texts source.toList

/-- A quote inside a word, a closed literal and one that is left open, none of
which has a parenthesis in it. -/
theorem tokens_lex_again_openLiteral :
    let tokens := lex "(a\"b \"c d\"e)\"f "
    (∀ token ∈ tokens, ¬ token.HasParen) ∧
      lex (String.intercalate " " (tokens.map text)) = tokens := by
  intro tokens
  have hparens : ∀ token ∈ tokens, ¬ token.HasParen := by decide +kernel
  exact ⟨hparens, (tokens_lex_again _).2.2.2.2.1 hparens⟩

-- Each round of lexing pads the parentheses inside literals once more.
example : lex "\"a(\" \"b( " = [.quoted "\"a ( \"", .quoted "\"b ("] ∧
    lex "\"a ( \" \"b (" = [.quoted "\"a  (  \"", .quoted "\"b  ("] := by
  decide +kernel

end FlatLisp.Token
