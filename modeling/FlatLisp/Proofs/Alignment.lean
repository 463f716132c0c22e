import FlatLisp.Proofs.Layout
import FlatLisp.Proofs.Lexing
import FlatLisp.Source.Nesting

/-!
Quotes that are read alike by all. The lexer sees a literal where a token
starts with a quote, while comments and nesting go by the parity of quotes.
Both agree on a text in which every quote that is to open a literal stands
where a token can start. There the nesting of the text is that of its tokens,
and if all literals are closed it can be put next to other such texts.
-/

namespace FlatLisp

open FlatLisp.Text (isBlank)
open FlatLisp.Token (IsWord AtBreak isBreak lexChars)

theorem Text.ne_of_isBlank {c d : Char} (hc : isBlank c = true) (hd : isBlank d = false) :
    c ≠ d := by
  rintro rfl
  rw [hc] at hd
  cases hd

namespace Source

/-- A text in which each quote with an even number of quotes before it stands
at the start or right behind a blank, a parenthesis or another quote. -/
def Aligned (text : List Char) : Prop :=
  ∀ before after, text = before ++ '"' :: after → before.count '"' % 2 = 0 →
    ∀ c ∈ before.getLast?, isBreak c = true ∨ c = '"'

/-- To look at all places of a list is to look at all indices. -/
theorem forall_place_iff {α : Type} {items : List α} {P : List α → α → List α → Prop} :
    (∀ before item after, items = before ++ item :: after → P before item after) ↔
      ∀ (i : Nat) (h : i < items.length), P (items.take i) items[i] (items.drop (i + 1)) := by
  constructor
  · intro h i hi
    exact h _ _ _ (by simp)
  · rintro h before item after rfl
    have hplace := h before.length (by simp)
    simpa using hplace

def opensBehind (before : List Char) : Bool :=
  before.getLast?.all fun c => isBreak c || c == '"'

theorem opensBehind_iff {before : List Char} :
    opensBehind before = true ↔ ∀ c ∈ before.getLast?, isBreak c = true ∨ c = '"' := by
  simp [opensBehind, Option.all_eq_true]

/-- Whether quotes are aligned can be decided: it is enough to look at each
place of the text and at what stands before it. -/
theorem aligned_iff {text : List Char} :
    Aligned text ↔ ∀ (i : Nat) (h : i < text.length), text[i] = '"' →
      (text.take i).count '"' % 2 = 0 → opensBehind (text.take i) = true := by
  rw [← forall_place_iff (P := fun before c _ => c = '"' → before.count '"' % 2 = 0 →
    opensBehind before = true)]
  constructor
  · rintro h before c after hsplit rfl heven
    exact opensBehind_iff.mpr (h before after hsplit heven)
  · intro h before after hsplit heven
    exact opensBehind_iff.mp (h before '"' after hsplit rfl heven)

instance : DecidablePred Aligned := fun _ => decidable_of_iff _ aligned_iff.symm

theorem Aligned.left {first second : List Char} (h : Aligned (first ++ second)) :
    Aligned first := by
  rintro before after rfl heven
  exact h before (after ++ second) (by simp) heven

theorem Aligned.right {first second : List Char} (h : Aligned (first ++ second))
    (hfirst : first.count '"' % 2 = 0) : Aligned second := by
  rintro before after rfl heven c hc
  have hcount : (first ++ before).count '"' % 2 = 0 := by
    rw [List.count_append]
    omega
  exact h (first ++ before) after (by simp) hcount c (List.mem_getLast?_append_of_mem_getLast? hc)

theorem Aligned.tail {c : Char} {rest : List Char} (h : Aligned (c :: rest)) (hc : c ≠ '"') :
    Aligned rest := by
  have hsplit : Aligned ([c] ++ rest) := h
  exact hsplit.right (by simp [hc])

/-- A word of a text with aligned quotes has no quote at all. Its first quote
would have an even number of quotes before it and a letter right in front. -/
theorem Aligned.quote_not_mem {word rest : List Char} (h : Aligned (word ++ rest))
    (hword : IsWord word) : '"' ∉ word := by
  intro hquote
  obtain ⟨before, after, rfl, hbefore⟩ := List.eq_append_cons_of_mem hquote
  have hcount : before.count '"' % 2 = 0 := by
    rw [List.count_eq_zero_of_not_mem hbefore]
  have hlast := h.left before after rfl hcount
  cases hend : before.getLast? with
  | none =>
      obtain rfl : before = [] := List.getLast?_eq_none_iff.mp hend
      exact hword.unquoted rfl
  | some c =>
      have hmember : c ∈ before := List.mem_of_getLast? hend
      rcases hlast c hend with hbreak | rfl
      · have hfree := hword.unbroken c (List.mem_append_left _ hmember)
        rw [hfree] at hbreak
        cases hbreak
      · exact hbefore hmember

/-- Induction over an aligned text by the parts that the lexer cuts it into: a
bare word has no quotes in it. -/
@[elab_as_elim] theorem aligned_induction {motive : List Char → Prop} (nil : motive [])
    (blank : ∀ c rest, isBlank c = true → motive rest → motive (c :: rest))
    (opening : ∀ rest, motive rest → motive ('(' :: rest))
    (closing : ∀ rest, motive rest → motive (')' :: rest))
    (word : ∀ text rest, IsWord text → '"' ∉ text → AtBreak rest → motive rest →
      motive (text ++ rest))
    (literal : ∀ content rest, '"' ∉ content → motive rest →
      motive ('"' :: (content ++ '"' :: rest)))
    (openLiteral : ∀ content, '"' ∉ content → motive ('"' :: content)) {text : List Char}
    (h : Aligned text) : motive text := by
  induction text using Token.text_induction with
  | nil => exact nil
  | blank c rest hblank ih =>
      have hquote : c ≠ '"' := Text.ne_of_isBlank hblank (by decide)
      exact blank c rest hblank (ih (h.tail hquote))
  | opening rest ih => exact opening rest (ih (h.tail (by decide)))
  | closing rest ih => exact closing rest (ih (h.tail (by decide)))
  | word text rest hword hbreak ih =>
      have hquote := h.quote_not_mem hword
      have hcount : text.count '"' % 2 = 0 := by
        rw [List.count_eq_zero_of_not_mem hquote]
      exact word text rest hword hquote hbreak (ih (h.right hcount))
  | literal content rest hcontent ih =>
      have hsplit : '"' :: (content ++ '"' :: rest) = ('"' :: (content ++ ['"'])) ++ rest := by simp
      have hcount : ('"' :: (content ++ ['"'])).count '"' % 2 = 0 := by
        simp [List.count_eq_zero_of_not_mem hcontent]
      rw [hsplit] at h
      exact literal content rest hcontent (ih (h.right hcount))
  | openLiteral content hcontent => exact openLiteral content hcontent

/-- Where two aligned texts are put together, a blank between them keeps the
quotes of the second one aligned. -/
theorem Aligned.append_blank {first second : List Char} (hfirst : Aligned first)
    (heven : first.count '"' % 2 = 0) (hsecond : Aligned second) {c : Char}
    (hblank : isBlank c = true) : Aligned (first ++ c :: second) := by
  have hquote : c ≠ '"' := Text.ne_of_isBlank hblank (by decide)
  intro before after hsplit hcount
  rcases List.append_eq_append_iff.mp hsplit with ⟨between, rfl, hrest⟩ | ⟨between, rfl, hrest⟩
  · cases between with
    | nil => exact absurd (List.cons.inj hrest).1 hquote
    | cons d between =>
        obtain ⟨rfl, rfl⟩ := List.cons.inj hrest
        rw [List.count_append, List.count_cons_of_ne hquote] at hcount
        intro last hlast
        cases hend : between.getLast? with
        | none =>
            obtain rfl : between = [] := List.getLast?_eq_none_iff.mp hend
            obtain rfl : c = last := by simpa using hlast
            exact .inl (Token.isBreak_iff.mpr (.inl hblank))
        | some d =>
            obtain rfl : d = last := by
              rw [List.getLast?_append, List.getLast?_cons, hend] at hlast
              simpa using hlast
            exact hsecond between after rfl (by omega) d hend
  · cases between with
    | nil => exact absurd (List.cons.inj hrest).1.symm hquote
    | cons d between =>
        obtain ⟨rfl, -⟩ := List.cons.inj hrest
        exact hfirst before between rfl hcount

/-- A text with aligned quotes whose literals are all closed. -/
structure Neat (text : List Char) : Prop where
  aligned : Aligned text
  even : text.count '"' % 2 = 0

theorem neat_iff {text : List Char} : Neat text ↔ Aligned text ∧ text.count '"' % 2 = 0 :=
  ⟨fun h => ⟨h.aligned, h.even⟩, fun h => ⟨h.1, h.2⟩⟩

instance : DecidablePred Neat := fun _ => decidable_of_iff _ neat_iff.symm

/-- A blank between two neat texts is enough to make one neat text of them: the
quotes of the first come in pairs, so those of the second stay aligned. -/
theorem Neat.append_blank {first second : List Char} (hfirst : Neat first) (hsecond : Neat second)
    {c : Char} (hblank : isBlank c = true) : Neat (first ++ c :: second) := by
  refine ⟨hfirst.aligned.append_blank hfirst.even hsecond.aligned hblank, ?_⟩
  have hquote : c ≠ '"' := Text.ne_of_isBlank hblank (by decide)
  have hcounts := hfirst.even
  have hmore := hsecond.even
  rw [List.count_append, List.count_cons_of_ne hquote]
  omega

/-- No token of a neat text is a literal without its closing quote. The
induction over the parts of the text carries the parity of the quotes that are
left, and an open literal would leave an odd one. -/
theorem Neat.isOpenLiteral_eq_false {text : List Char} (h : Neat text) :
    ∀ token ∈ lexChars text, token.isOpenLiteral = false := by
  obtain ⟨haligned, heven⟩ := h
  revert heven
  refine aligned_induction ?nil ?blank ?opening ?closing ?word ?literal ?openLiteral haligned
  case nil =>
    intro heven
    simp [lexChars, Token.pad, Token.scan]
  case blank =>
    intro c rest hblank ih heven
    have hquote : c ≠ '"' := Text.ne_of_isBlank hblank (by decide)
    rw [Token.lexChars_blank hblank]
    rw [List.count_cons_of_ne hquote] at heven
    exact ih heven
  case opening =>
    intro rest ih heven
    rw [Token.lexChars_opening]
    exact List.forall_mem_cons.mpr ⟨rfl, ih heven⟩
  case closing =>
    intro rest ih heven
    rw [Token.lexChars_closing]
    exact List.forall_mem_cons.mpr ⟨rfl, ih heven⟩
  case word =>
    intro text rest hword hquote hbreak ih heven
    rw [Token.lexChars_word hword hbreak]
    rw [List.count_append, List.count_eq_zero_of_not_mem hquote, Nat.zero_add] at heven
    exact List.forall_mem_cons.mpr ⟨rfl, ih heven⟩
  case literal =>
    intro content rest hcontent ih heven
    rw [List.count_cons_self, List.count_append, List.count_cons_self,
      List.count_eq_zero_of_not_mem hcontent] at heven
    have hrest : rest.count '"' % 2 = 0 := by omega
    rw [Token.lexChars_literal hcontent]
    exact List.forall_mem_cons.mpr ⟨by simp [Token.isOpenLiteral], ih hrest⟩
  case openLiteral =>
    intro content hcontent heven
    rw [List.count_cons_self, List.count_eq_zero_of_not_mem hcontent] at heven
    cases heven

/-- Neat texts have the tokens of both, if a blank separates them. -/
theorem Neat.lexChars_append_blank {text : List Char} (h : Neat text) {c : Char}
    (hblank : isBlank c = true) (rest : List Char) :
    lexChars (text ++ c :: rest) = lexChars text ++ lexChars rest := by
  refine Token.lexChars_append_blank hblank (fun token hlast => ?_) rest
  exact h.isOpenLiteral_eq_false token (List.mem_of_getLast? hlast)

/-- A text with aligned quotes in which every literal is closed on the line on
which it opens. -/
structure Tidy (text : List Char) : Prop where
  aligned : Aligned text
  closed : ∀ before after, text = before ++ '"' :: after → before.count '"' % 2 = 0 →
    ∃ content rest, after = content ++ '"' :: rest ∧ '"' ∉ content ∧ '\n' ∉ content

theorem takeWhile_content {content : List Char} (h : '"' ∉ content) (rest : List Char) :
    (content ++ '"' :: rest).takeWhile (· ≠ '"') = content := by
  induction content with
  | nil => simp
  | cons c content ih =>
      obtain ⟨hc, hmore⟩ : c ≠ '"' ∧ '"' ∉ content := by simpa [eq_comm] using h
      rw [List.cons_append, List.takeWhile_cons_of_pos (by simpa using hc), ih hmore]

/-- That a literal is closed on its line can be decided by the characters up to
the next quote. -/
theorem closed_iff {after : List Char} :
    (∃ content rest, after = content ++ '"' :: rest ∧ '"' ∉ content ∧ '\n' ∉ content) ↔
      '"' ∈ after ∧ '\n' ∉ after.takeWhile (· ≠ '"') := by
  constructor
  · rintro ⟨content, rest, rfl, hcontent, hline⟩
    rw [takeWhile_content hcontent]
    exact ⟨by simp, hline⟩
  · rintro ⟨hquote, hline⟩
    obtain ⟨content, rest, rfl, hcontent⟩ := List.eq_append_cons_of_mem hquote
    rw [takeWhile_content hcontent] at hline
    exact ⟨content, rest, rfl, hcontent, hline⟩

/-- Like alignment, tidiness is decided place by place. -/
theorem tidy_iff {text : List Char} :
    Tidy text ↔ ∀ (i : Nat) (h : i < text.length), text[i] = '"' →
      (text.take i).count '"' % 2 = 0 → opensBehind (text.take i) = true ∧
        '"' ∈ text.drop (i + 1) ∧ '\n' ∉ (text.drop (i + 1)).takeWhile (· ≠ '"') := by
  rw [← forall_place_iff (P := fun before c after => c = '"' → before.count '"' % 2 = 0 →
    opensBehind before = true ∧ '"' ∈ after ∧ '\n' ∉ after.takeWhile (· ≠ '"'))]
  constructor
  · rintro h before c after hsplit rfl heven
    exact ⟨opensBehind_iff.mpr (h.aligned before after hsplit heven),
      closed_iff.mp (h.closed before after hsplit heven)⟩
  · intro h
    constructor
    · intro before after hsplit heven
      exact opensBehind_iff.mp (h before '"' after hsplit rfl heven).1
    · intro before after hsplit heven
      exact closed_iff.mpr (h before '"' after hsplit rfl heven).2

instance : DecidablePred Tidy := fun _ => decidable_of_iff _ tidy_iff.symm

theorem exists_last_quote {text : List Char} (h : '"' ∈ text) :
    ∃ before after, text = before ++ '"' :: after ∧ '"' ∉ after := by
  obtain ⟨after, before, hsplit, hafter⟩ := List.eq_append_cons_of_mem (List.mem_reverse.mpr h)
  refine ⟨before.reverse, after.reverse, ?_, by simpa using hafter⟩
  rw [← List.reverse_reverse text, hsplit]
  simp

/-- No literal of a tidy text is open where a line ends. -/
theorem Tidy.count_line {line tail : List Char} (h : Tidy (line ++ tail))
    (htail : ∀ c ∈ tail.head?, c = '\n') : line.count '"' % 2 = 0 := by
  by_cases hquote : '"' ∈ line
  · obtain ⟨before, after, rfl, hafter⟩ := exists_last_quote hquote
    rw [List.count_append, List.count_cons_self, List.count_eq_zero_of_not_mem hafter]
    by_contra hodd
    -- the last quote of the line would open a literal, so the line goes on up to another quote
    obtain ⟨content, rest, hclosed, hcontent, hline⟩ :=
      h.closed before (after ++ tail) (by simp) (by omega)
    rcases List.append_eq_append_iff.mp hclosed with ⟨more, rfl, hmore⟩ | ⟨more, rfl, hmore⟩
    · cases more with
      | nil => exact absurd (htail '"' (by simp [hmore])) (by decide)
      | cons c more =>
          have hnewline := htail c (by simp [hmore])
          exact hline (by simp [hnewline])
    · cases more with
      | nil =>
          obtain rfl : '"' :: rest = tail := hmore
          exact absurd (htail '"' rfl) (by decide)
      | cons c more =>
          obtain ⟨rfl, -⟩ := List.cons.inj hmore
          exact hafter (by simp)
  · rw [List.count_eq_zero_of_not_mem hquote]

theorem Tidy.neat_last {line : List Char} (h : Tidy line) : Neat line := by
  refine ⟨h.aligned, ?_⟩
  rw [← List.append_nil line] at h
  exact h.count_line (by simp)

theorem Tidy.neat_line {line rest : List Char} (h : Tidy (line ++ '\n' :: rest)) : Neat line :=
  ⟨h.aligned.left, h.count_line (by simp)⟩

/-- What follows a line of a tidy text is tidy. All literals of the line are
closed on it, so the parity of quotes starts anew behind it. -/
theorem Tidy.rest {line rest : List Char} (h : Tidy (line ++ '\n' :: rest)) : Tidy rest := by
  have heven := h.neat_line.even
  have hfirst : (line ++ ['\n']).count '"' % 2 = 0 := by simpa using heven
  rw [List.append_cons] at h
  refine ⟨h.aligned.right hfirst, ?_⟩
  rintro before after rfl hcount
  refine h.closed (line ++ ['\n'] ++ before) after (by simp) ?_
  rw [List.count_append]
  omega

end Source

namespace Token

def nesting (tokens : List Token) : Int :=
  tokens.count .opening - tokens.count .closing

@[simp] theorem nesting_nil : nesting [] = 0 := rfl

@[simp] theorem nesting_opening (rest : List Token) :
    nesting (.opening :: rest) = 1 + nesting rest := by
  have hdifferent : opening ≠ closing := by decide
  simp only [nesting, List.count_cons_self, List.count_cons_of_ne hdifferent]
  omega

@[simp] theorem nesting_closing (rest : List Token) :
    nesting (.closing :: rest) = -1 + nesting rest := by
  have hdifferent : closing ≠ opening := by decide
  simp only [nesting, List.count_cons_self, List.count_cons_of_ne hdifferent]
  omega

@[simp] theorem nesting_quoted (text : String) (rest : List Token) :
    nesting (.quoted text :: rest) = nesting rest := by
  simp [nesting]

@[simp] theorem nesting_word (text : String) (rest : List Token) :
    nesting (.word text :: rest) = nesting rest := by
  simp [nesting]

/-- Where no parenthesis is left over, the level is the nesting. -/
theorem finalLevel_eq_nesting {level : Nat} {tokens : List Token}
    (h : firstFault level tokens = none) :
    (finalLevel level tokens : Int) = level + nesting tokens := by
  induction tokens generalizing level with
  | nil => simp [finalLevel]
  | cons token rest ih =>
      have hvalid : token.fault? level = none := by
        rw [firstFault] at h
        split at h
        · cases h
        next hnone => exact hnone
      rw [firstFault_cons hvalid] at h
      have hrest := ih h
      rw [finalLevel, List.foldl_cons, ← finalLevel, hrest]
      cases token with
      | opening =>
          rw [nesting_opening, levelAfter]
          omega
      | closing =>
          have hlevel : level ≠ 0 := by
            rintro rfl
            cases hvalid
          rw [nesting_closing, levelAfter]
          omega
      | quoted text => rw [nesting_quoted, levelAfter]
      | word text => rw [nesting_word, levelAfter]

end Token

namespace Source

theorem nestingFrom_literal {content : List Char} (h : '"' ∉ content) (rest : List Char) :
    nestingFrom true (content ++ '"' :: rest) = nestingFrom false rest := by
  induction content with
  | nil => rfl
  | cons c content ih =>
      obtain ⟨hc, hmore⟩ : c ≠ '"' ∧ '"' ∉ content := by simpa [eq_comm] using h
      rw [List.cons_append, nestingFrom, if_neg hc, if_pos rfl, ih hmore]

theorem nestingFrom_openLiteral {content : List Char} (h : '"' ∉ content) :
    nestingFrom true content = 0 := by
  induction content with
  | nil => rfl
  | cons c content ih =>
      obtain ⟨hc, hmore⟩ : c ≠ '"' ∧ '"' ∉ content := by simpa [eq_comm] using h
      rw [nestingFrom, if_neg hc, if_pos rfl, ih hmore]

theorem nestingFrom_cons {c : Char} (h : c ≠ '"') (rest : List Char) :
    nestingFrom false (c :: rest) = parenWeight c + nestingFrom false rest := by
  rw [nestingFrom, if_neg h, if_neg (by decide)]

theorem parenWeight_of_not_isBreak {c : Char} (h : isBreak c = false) : parenWeight c = 0 := by
  have hopening : c ≠ '(' := by
    rintro rfl
    exact absurd h (by decide)
  have hclosing : c ≠ ')' := by
    rintro rfl
    exact absurd h (by decide)
  rw [parenWeight, if_neg hopening, if_neg hclosing]

/-- A word without quotes does not change the nesting. -/
theorem nestingFrom_word {word : List Char} (hquote : '"' ∉ word)
    (hunbroken : ∀ c ∈ word, isBreak c = false) (rest : List Char) :
    nestingFrom false (word ++ rest) = nestingFrom false rest := by
  induction word with
  | nil => rfl
  | cons c word ih =>
      obtain ⟨hc, hmore⟩ : c ≠ '"' ∧ '"' ∉ word := by simpa [eq_comm] using hquote
      obtain ⟨hfree, hothers⟩ := List.forall_mem_cons.mp hunbroken
      rw [List.cons_append, nestingFrom_cons hc, parenWeight_of_not_isBreak hfree, Int.zero_add,
        ih hmore hothers]

/-- The nesting of an aligned text is that of its tokens. -/
theorem Aligned.nestingFrom_eq {text : List Char} (h : Aligned text) :
    nestingFrom false text = Token.nesting (lexChars text) := by
  refine aligned_induction ?nil ?blank ?opening ?closing ?word ?literal ?openLiteral h
  case nil =>
    rfl
  case blank =>
    intro c rest hblank ih
    have hquote : c ≠ '"' := Text.ne_of_isBlank hblank (by decide)
    have hweight : parenWeight c = 0 := by
      rw [parenWeight, if_neg (Text.ne_of_isBlank hblank (by decide)),
        if_neg (Text.ne_of_isBlank hblank (by decide))]
    rw [Token.lexChars_blank hblank, nestingFrom_cons hquote, hweight, ih, Int.zero_add]
  case opening =>
    intro rest ih
    rw [Token.lexChars_opening, Token.nesting_opening, nestingFrom_cons (by decide), ih]
    rfl
  case closing =>
    intro rest ih
    rw [Token.lexChars_closing, Token.nesting_closing, nestingFrom_cons (by decide), ih]
    rfl
  case word =>
    intro text rest hword hquote hbreak ih
    rw [Token.lexChars_word hword hbreak, Token.nesting_word,
      nestingFrom_word hquote hword.unbroken, ih]
  case literal =>
    intro content rest hcontent ih
    rw [Token.lexChars_literal hcontent, Token.nesting_quoted, nestingFrom, if_pos rfl]
    exact (nestingFrom_literal hcontent rest).trans ih
  case openLiteral =>
    intro content hcontent
    rw [Token.lexChars_openLiteral hcontent, Token.nesting_quoted, nestingFrom, if_pos rfl]
    exact nestingFrom_openLiteral hcontent

end Source

end FlatLisp
