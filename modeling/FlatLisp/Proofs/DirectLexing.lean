import FlatLisp.Proofs.Lexing

/-!
A lexer that reads a text as it is written. Where `lex` first surrounds all
parentheses with blanks, this one never changes the text: it passes over
blanks, takes a parenthesis by itself, and cuts off a literal through its
closing quote or a bare word up to the next break. The padding is left to the
one place where it shows, the text of a literal.

The main statement is `lex_eq_lexDirect`: on every text the two lexers give the
same tokens.
-/

namespace FlatLisp.Token

open FlatLisp.Text (isBlank trimEnd)

/-- The token at the front of a text, unless it starts with a blank, and the
text behind it. A literal without its closing quote takes all of the text, less
the blanks at its end. -/
def cutFront (c : Char) (rest : List Char) : Option Token × List Char :=
  if isBlank c then (none, rest)
  else if c = '(' then (some .opening, rest)
  else if c = ')' then (some .closing, rest)
  else if c = '"' then
    if '"' ∈ rest then
      (some (.quoted (String.ofList ('"' :: (pad (rest.takeWhile (· ≠ '"')) ++ ['"'])))),
        (rest.dropWhile (· ≠ '"')).tail)
    else (some (.quoted (trimEnd (String.ofList ('"' :: pad rest)))), [])
  else
    (some (.word (String.ofList (c :: rest.takeWhile (!isBreak ·)))), rest.dropWhile (!isBreak ·))

/-- Cutting off the front uses up at least one character. -/
theorem length_cutFront_le (c : Char) (rest : List Char) :
    (cutFront c rest).2.length ≤ rest.length := by
  unfold cutFront
  split
  · exact Nat.le_refl _
  split
  · exact Nat.le_refl _
  split
  · exact Nat.le_refl _
  split
  · split
    · exact ((List.tail_sublist _).trans (List.dropWhile_sublist _)).length_le
    · exact Nat.zero_le _
  · exact (List.dropWhile_sublist _).length_le

def lexDirect : List Char → List Token
  | [] => []
  | c :: rest => (cutFront c rest).1.toList ++ lexDirect (cutFront c rest).2
termination_by text => text.length
decreasing_by exact Nat.lt_succ_of_le (length_cutFront_le c rest)

theorem lexDirect_nil : lexDirect [] = [] := by
  unfold lexDirect
  rfl

theorem lexDirect_cons {c : Char} {rest more : List Char} (token : Option Token)
    (h : cutFront c rest = (token, more)) :
    lexDirect (c :: rest) = token.toList ++ lexDirect more := by
  conv_lhs => unfold lexDirect
  rw [h]

theorem lexDirect_blank {c : Char} (h : isBlank c = true) (rest : List Char) :
    lexDirect (c :: rest) = lexDirect rest := by
  apply lexDirect_cons none
  unfold cutFront
  rw [if_pos h]

theorem lexDirect_opening (rest : List Char) :
    lexDirect ('(' :: rest) = .opening :: lexDirect rest := by
  apply lexDirect_cons (some .opening)
  unfold cutFront
  rw [if_neg (by decide), if_pos rfl]

theorem lexDirect_closing (rest : List Char) :
    lexDirect (')' :: rest) = .closing :: lexDirect rest := by
  apply lexDirect_cons (some .closing)
  unfold cutFront
  rw [if_neg (by decide), if_neg (by decide), if_pos rfl]

/-- A word is cut off up to the first character that ends it. -/
theorem lexDirect_word {text rest : List Char} (hword : IsWord text) (hrest : AtBreak rest) :
    lexDirect (text ++ rest) = .word (String.ofList text) :: lexDirect rest := by
  obtain ⟨hnonempty, hunquoted, hunbroken⟩ := hword
  cases text with
  | nil => exact absurd rfl hnonempty
  | cons c letters =>
      obtain ⟨hc, hletters⟩ := List.forall_mem_cons.mp hunbroken
      have hblank : ¬ isBlank c = true := by
        rw [isBlank_of_not_isBreak hc]
        exact Bool.false_ne_true
      have hparen {paren : Char} (h : isBreak paren = true) : c ≠ paren := by
        rintro rfl
        rw [hc] at h
        cases h
      have hquote : c ≠ '"' := by
        rintro rfl
        exact hunquoted rfl
      have hgoes : ∀ d ∈ letters, (!isBreak d) = true := by
        intro d hd
        rw [hletters d hd]
        rfl
      have hstops : ∀ d ∈ rest.head?, (!isBreak d) = false := by
        intro d hd
        rw [hrest d hd]
        rfl
      obtain ⟨htake, hdrop⟩ := takeWhile_dropWhile_append hgoes hstops
      rw [List.cons_append]
      apply lexDirect_cons (some (.word (String.ofList (c :: letters))))
      unfold cutFront
      rw [if_neg hblank, if_neg (hparen (by decide)), if_neg (hparen (by decide)), if_neg hquote,
        htake, hdrop]

/-- A literal is cut off behind its closing quote, and its content is padded as
the content of a token is. -/
theorem lexDirect_literal {content : List Char} (h : '"' ∉ content) (rest : List Char) :
    lexDirect ('"' :: (content ++ '"' :: rest)) =
      .quoted (String.ofList ('"' :: (pad content ++ ['"']))) :: lexDirect rest := by
  have hgoes : ∀ c ∈ content, decide (c ≠ '"') = true := by
    intro c hc
    apply decide_eq_true
    rintro rfl
    exact h hc
  have hstops : ∀ c ∈ ('"' :: rest).head?, decide (c ≠ '"') = false := by simp
  obtain ⟨htake, hdrop⟩ := takeWhile_dropWhile_append hgoes hstops
  have hclosed : '"' ∈ content ++ '"' :: rest := by simp
  apply lexDirect_cons (some (.quoted (String.ofList ('"' :: (pad content ++ ['"'])))))
  unfold cutFront
  rw [if_neg (by decide), if_neg (by decide), if_neg (by decide), if_pos rfl, if_pos hclosed,
    htake, hdrop, List.tail_cons]

theorem lexDirect_openLiteral {content : List Char} (h : '"' ∉ content) :
    lexDirect ('"' :: content) = [.quoted (trimEnd (String.ofList ('"' :: pad content)))] := by
  have hfront : cutFront '"' content =
      (some (.quoted (trimEnd (String.ofList ('"' :: pad content)))), []) := by
    unfold cutFront
    rw [if_neg (by decide), if_neg (by decide), if_neg (by decide), if_pos rfl, if_neg h]
  rw [lexDirect_cons _ hfront, lexDirect_nil]
  rfl

/-- To pad every parenthesis of a text before it is cut comes to the same as to
cut the text as it is written. -/
theorem lex_eq_lexDirect (source : String) : lex source = lexDirect source.toList := by
  rw [lex_eq_lexChars]
  -- part by part: each is one token, or none, for both lexers
  induction source.toList using text_induction with
  | nil => exact lexDirect_nil.symm
  | blank c rest hblank ih => rw [lexChars_blank hblank, lexDirect_blank hblank, ih]
  | opening rest ih => rw [lexChars_opening, lexDirect_opening, ih]
  | closing rest ih => rw [lexChars_closing, lexDirect_closing, ih]
  | word text rest hword hbreak ih =>
      rw [lexChars_word hword hbreak, lexDirect_word hword hbreak, ih]
  | literal content rest hcontent ih =>
      rw [lexChars_literal hcontent, lexDirect_literal hcontent, ih]
  | openLiteral content hcontent =>
      rw [lexChars_openLiteral hcontent, lexDirect_openLiteral hcontent]

end FlatLisp.Token
