import FlatLisp.Proofs.Conversation
import FlatLisp.Proofs.Units

/-!
Balanced parentheses, counted in a text and in its tokens. The shell submits a
block as soon as its characters are balanced; the parser wants balanced tokens.
Where quotes are aligned the two counts agree, so a text of complete forms has
the nesting zero and one that ends inside a list has a positive nesting.

For the units of a dialogue it follows that none of them ends inside a list, if
its quotes are aligned and it has no comment left in it. Both can go wrong. A
quote inside a word opens no literal for the lexer but hides parentheses from
the count; and since comments are stripped line by line, a literal that spans
lines can hide a comment that shows up when the lines are joined.
-/

namespace FlatLisp

open FlatLisp.Source (Aligned Neat stripFrom stripComments)

namespace Form

theorem nesting_eq_zero_of_whole {tokens : List Token} (h : Whole tokens) :
    Token.nesting tokens = 0 := by
  obtain ⟨hvalid, hclosed⟩ := whole_iff.mp h
  have hlevel := Token.finalLevel_eq_nesting hvalid
  omega

/-- The tokens end inside a list only if they have more opening than closing
parentheses. -/
theorem nesting_pos_of_unmatchedOpen {tokens : List Token}
    (h : (parse tokens).1 = .error .unmatchedOpen) : 0 < Token.nesting tokens := by
  have hspec := readSpec_parseAllFrom [] tokens
  rw [← parseAll_eq_parseAllFrom, parseAll_of_parse_error h] at hspec
  cases hspec with
  | fault hfound => rcases Token.firstFault_cases hfound with h | ⟨_, h⟩ <;> cases h
  | unfinished hvalid hopen =>
      have hlevel := Token.finalLevel_eq_nesting hvalid
      rw [List.length_nil] at hlevel hopen
      omega

end Form

namespace Source

theorem Aligned.nesting_eq {source : String} (h : Aligned source.toList) :
    nesting source = Token.nesting (Token.lex source) :=
  h.nestingFrom_eq

/-- The nesting of a text with aligned quotes is the number of its opening
parentheses minus that of its closing ones, as tokens. It is zero if the text
consists of complete forms, and positive if it ends inside a list. The text may
also end inside a literal. -/
theorem nesting_counts_tokens {source : String} (h : Aligned source.toList) :
    nesting source =
        ((Token.lex source).count .opening : Int) - (Token.lex source).count .closing ∧
      (∀ forms, Form.parseAll (Token.lex source) = .ok forms → nesting source = 0) ∧
      ((Form.parse (Token.lex source)).1 = .error .unmatchedOpen → 0 < nesting source) := by
  rw [h.nesting_eq]
  refine ⟨rfl, ?_, ?_⟩
  · intro forms hforms
    exact Form.nesting_eq_zero_of_whole ⟨forms, hforms⟩
  · exact Form.nesting_pos_of_unmatchedOpen

/-- Parentheses in literals, literals back to back, and a last literal that is
never closed. -/
theorem nesting_counts_tokens_openLiteral :
    let source := "(f \"a)\"\"(b\" (\"c )"
    Aligned source.toList ∧ (Form.parse (Token.lex source)).1 = .error .unmatchedOpen ∧
      0 < nesting source ∧ nesting source = 2 := by
  intro source
  have haligned : Aligned source.toList := by decide +kernel
  have hopen : (Form.parse (Token.lex source)).1 = .error .unmatchedOpen := by decide +kernel
  have htokens : (Token.lex source).count .opening = 2 ∧ (Token.lex source).count .closing = 0 := by
    decide +kernel
  obtain ⟨hcount, -, hpositive⟩ := nesting_counts_tokens haligned
  refine ⟨haligned, hopen, hpositive hopen, ?_⟩
  rw [hcount, htokens.1, htokens.2]
  rfl

end Source

namespace Shell

/-- A unit is a block of lines that were read, and does not wait for a
parenthesis. -/
theorem exists_lines_of_mem_units {settings : Settings} {readings : List Reading} {unit : String}
    (h : unit ∈ units settings readings) :
    ∃ lines, unit = blockText lines ∧ (∀ line ∈ lines, .line line ∈ readings) ∧
      Source.nesting unit ≤ 0 := by
  have hcut : Cut readings (units settings readings) := Pending.nil.cut settings readings
  obtain ⟨blocks, hunits, hread, hbalanced⟩ := hcut.exists_blocks
  rw [hunits] at h
  obtain ⟨lines, hlines, rfl⟩ := List.mem_map.mp h
  refine ⟨lines, rfl, ?_, hbalanced lines hlines⟩
  intro line hline
  apply hread.subset
  exact List.mem_map_of_mem (List.mem_flatten.mpr ⟨lines, hlines, hline⟩)

/-- Lines whose literals are all closed give a block with aligned quotes and
without comments. -/
theorem neat_blockText {lines : List String}
    (h : ∀ line ∈ lines, Neat (stripComments line).toList) :
    Neat (blockText lines).toList ∧
      stripFrom .code (blockText lines).toList = (blockText lines).toList := by
  induction lines using List.reverseRecOn with
  | nil => exact ⟨by decide, rfl⟩
  | append_singleton lines line ih =>
      obtain ⟨hneat, hplain⟩ := ih fun other hother => h other (List.mem_append_left _ hother)
      have hline := h line (by simp)
      have hblank : Text.isBlank ' ' = true := by decide
      rw [blockText_concat]
      split
      next => exact ⟨hline, Source.stripFrom_stripComments line⟩
      next =>
        rw [toList_append_blank]
        refine ⟨hneat.append_blank hline hblank, ?_⟩
        rw [Source.stripFrom_append_blank hplain hneat.even hblank,
          Source.stripFrom_stripComments]

/-- A text that does not wait for a parenthesis is not read as one that ends
inside a list, if the lexer sees it as the count does. -/
theorem parse_ne_unmatchedOpen {unit : String} (hnesting : Source.nesting unit ≤ 0)
    (haligned : Aligned unit.toList)
    (hplain : stripFrom .code unit.toList = unit.toList) :
    (Form.parse (Program.tokens unit)).1 ≠ .error .unmatchedOpen := by
  intro hopen
  rw [Program.tokens_eq_lexChars, hplain] at hopen
  have hpositive := Form.nesting_pos_of_unmatchedOpen hopen
  have hsame := haligned.nesting_eq
  rw [Token.lex_eq_lexChars] at hsame
  omega

/-- No unit of a dialogue ends inside a list if its quotes are aligned and it
has no comment left in it. So it is with every unit if each line, without its
comment, has aligned quotes and closes the literals that it opens. -/
theorem submitted_units_complete (settings : Settings) (readings : List Reading) :
    (∀ unit ∈ units settings readings, Aligned unit.toList → stripComments unit = unit →
        (Form.parse (Program.tokens unit)).1 ≠ .error .unmatchedOpen) ∧
      ((∀ line, .line line ∈ readings → Neat (stripComments line).toList) →
        ∀ unit ∈ units settings readings,
          (Form.parse (Program.tokens unit)).1 ≠ .error .unmatchedOpen) := by
  constructor
  · intro unit hunit haligned hplain
    obtain ⟨-, -, -, hnesting⟩ := exists_lines_of_mem_units hunit
    apply parse_ne_unmatchedOpen hnesting haligned
    rw [← Source.toList_stripComments, hplain]
  · intro hlines unit hunit
    obtain ⟨lines, rfl, hread, hnesting⟩ := exists_lines_of_mem_units hunit
    obtain ⟨hneat, hplain⟩ := neat_blockText fun line hline => hlines line (hread line hline)
    exact parse_ne_unmatchedOpen hnesting hneat.aligned hplain

/-- A literal that spans lines, whose unit has aligned quotes all the same; and
lines with a parenthesis and a semicolon in a literal, and with a comment. -/
theorem submitted_units_complete_literal :
    let spanning : List Reading := [.line "(print \"a", .line "b)\")"]
    let commented : List Reading := [.line "(print \"(;\" ; ( \"", .line "\")\")"]
    (units {} spanning = ["(print \"a b)\")"] ∧
        (Form.parse (Program.tokens "(print \"a b)\")")).1 ≠ .error .unmatchedOpen) ∧
      units {} commented = ["(print \"(;\"  \")\")"] ∧
        (Form.parse (Program.tokens "(print \"(;\"  \")\")")).1 ≠ .error .unmatchedOpen := by
  intro spanning commented
  have hspanning : units {} spanning = ["(print \"a b)\")"] := by decide +kernel
  have hcommented : units {} commented = ["(print \"(;\"  \")\")"] := by decide +kernel
  have hlines : ∀ line, .line line ∈ commented → Neat (stripComments line).toList := by
    intro line hline
    simp only [commented, List.mem_cons, Reading.line.injEq, List.not_mem_nil, or_false] at hline
    rcases hline with rfl | rfl
    · decide +kernel
    · decide +kernel
  refine ⟨⟨hspanning, ?_⟩, hcommented, ?_⟩
  · apply (submitted_units_complete {} spanning).1
    · rw [hspanning]
      exact List.mem_singleton_self _
    · decide +kernel
    · decide +kernel
  · apply (submitted_units_complete {} commented).2 hlines
    rw [hcommented]
    exact List.mem_singleton_self _

/-- Units that end inside a list: one with a quote inside a word, and one whose
second line ends a literal and goes on with a comment. -/
theorem submitted_units_left_open :
    (∃ unit ∈ units {} [.line "(a\"(\")"],
        (Form.parse (Program.tokens unit)).1 = .error .unmatchedOpen) ∧
      ∃ unit ∈ units {} [.line "(\"", .line "\" ; \"", .line "\" )"],
        (Form.parse (Program.tokens unit)).1 = .error .unmatchedOpen := by
  decide +kernel

end Shell

end FlatLisp
