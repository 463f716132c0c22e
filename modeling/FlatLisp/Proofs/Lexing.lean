import FlatLisp.Token.Lexer
import Mathlib.Data.List.DropRight

/-!
The lexer seen from the text as it was written, before parentheses are
surrounded with blanks. Every text is, from its front on, made of blanks,
parentheses, bare words and literals; `text_induction` is the induction over
these parts, and for each part one equation says which token it gives. The
padding shows only inside literals.
-/

namespace FlatLisp.Token

open FlatLisp.Text (isBlank trim trimEnd)

def isBreak (c : Char) : Bool :=
  isBlank c || c == '(' || c == ')'

/-- Bare words have no character that would end them, and no quote in front. -/
structure IsWord (text : List Char) : Prop where
  nonempty : text ≠ []
  unquoted : text.head? ≠ some '"'
  unbroken : ∀ c ∈ text, isBreak c = false

theorem isWord_iff {text : List Char} :
    IsWord text ↔
      text ≠ [] ∧ text.head? ≠ some '"' ∧ (text.all fun c => !isBreak c) = true := by
  constructor
  · intro h
    exact ⟨h.nonempty, h.unquoted, by simpa using h.unbroken⟩
  · rintro ⟨hnonempty, hunquoted, hunbroken⟩
    exact ⟨hnonempty, hunquoted, by simpa using hunbroken⟩

instance : DecidablePred IsWord := fun _ => decidable_of_iff _ isWord_iff.symm

/-- A bare word in front of such a text ends there. -/
def AtBreak (text : List Char) : Prop := ∀ c ∈ text.head?, isBreak c = true

theorem atBreak_nil : AtBreak [] := by simp [AtBreak]

theorem atBreak_cons {c : Char} (h : isBreak c = true) (rest : List Char) :
    AtBreak (c :: rest) := by
  simpa [AtBreak] using h

/-- Characters that pass a test are taken up to the first one that fails it. -/
theorem takeWhile_dropWhile_append {p : Char → Bool} {taken rest : List Char}
    (htaken : ∀ c ∈ taken, p c = true) (hrest : ∀ c ∈ rest.head?, p c = false) :
    (taken ++ rest).takeWhile p = taken ∧ (taken ++ rest).dropWhile p = rest := by
  rw [List.takeWhile_append_of_pos htaken, List.dropWhile_append_of_pos htaken]
  cases rest with
  | nil => simp
  | cons c rest =>
      have hc : p c = false := hrest c rfl
      simp [hc]

def lexChars (text : List Char) : List Token := scan .between (pad text)

theorem lex_eq_lexChars (source : String) : lex source = lexChars source.toList := rfl

theorem pad_cons (c : Char) (rest : List Char) : pad (c :: rest) = padChar c ++ pad rest :=
  List.flatMap_cons

theorem isBreak_iff {c : Char} : isBreak c = true ↔ isBlank c = true ∨ c = '(' ∨ c = ')' := by
  simp only [isBreak, Bool.or_eq_true, beq_iff_eq, or_assoc]

theorem isBlank_of_not_isBreak {c : Char} (h : isBreak c = false) : isBlank c = false := by
  rw [← Bool.not_eq_true] at h ⊢
  intro hblank
  exact h (isBreak_iff.mpr (.inl hblank))

theorem padChar_of_ne {c : Char} (hopening : c ≠ '(') (hclosing : c ≠ ')') : padChar c = [c] := by
  rw [padChar, if_neg (not_or_intro hopening hclosing)]

theorem padChar_of_not_isBreak {c : Char} (h : isBreak c = false) : padChar c = [c] := by
  apply padChar_of_ne
  · rintro rfl
    exact absurd h (by decide)
  · rintro rfl
    exact absurd h (by decide)

/-- Padding touches parentheses only. -/
theorem pad_eq_self {text : List Char} (hopening : '(' ∉ text) (hclosing : ')' ∉ text) :
    pad text = text := by
  have hchar : ∀ c ∈ text, padChar c = [c] := by
    intro c hc
    apply padChar_of_ne
    · rintro rfl
      exact hopening hc
    · rintro rfl
      exact hclosing hc
  rw [pad, List.flatMap_congr hchar, List.flatMap_singleton']

theorem padChar_of_isBreak {c : Char} (h : isBreak c = true) :
    ∃ blank rest, isBlank blank = true ∧ padChar c = blank :: rest := by
  by_cases hparen : c = '(' ∨ c = ')'
  · exact ⟨' ', [c, ' '], by decide, by rw [padChar, if_pos hparen]⟩
  · have hblank : isBlank c = true := (isBreak_iff.mp h).resolve_right hparen
    exact ⟨c, [], hblank, by rw [padChar, if_neg hparen]⟩

theorem push_append_ofList (text : String) (c : Char) (letters : List Char) :
    text.push c ++ String.ofList letters = text ++ String.ofList (c :: letters) := by
  rw [String.ofList_cons, String.push_eq_append, String.append_assoc]

/-- A word that is under way takes all characters up to the next break. -/
theorem scan_inWord (text : String) {letters rest : List Char}
    (hletters : ∀ c ∈ letters, isBreak c = false) (hrest : AtBreak rest) :
    scan (.inWord text) (pad (letters ++ rest)) =
      ofWord (text ++ String.ofList letters) :: lexChars rest := by
  induction letters generalizing text with
  | nil =>
      cases rest with
      | nil => simp [pad, scan, lexChars]
      | cons c rest =>
          obtain ⟨blank, more, hblank, hpad⟩ := padChar_of_isBreak (hrest c rfl)
          simp [lexChars, pad_cons, hpad, scan, hblank]
  | cons c letters ih =>
      have hc := hletters c List.mem_cons_self
      have hblank := isBlank_of_not_isBreak hc
      rw [List.cons_append, pad_cons, padChar_of_not_isBreak hc]
      simp only [List.singleton_append, scan, hblank, Bool.false_eq_true, if_false]
      rw [ih _ fun d hd => hletters d (List.mem_cons_of_mem _ hd)]
      rw [push_append_ofList]

/-- A literal that is under way takes all characters up to the next quote. -/
theorem scan_inQuoted (text : String) {letters : List Char} (hletters : '"' ∉ letters)
    (rest : List Char) :
    scan (.inQuoted text) (letters ++ rest) =
      scan (.inQuoted (text ++ String.ofList letters)) rest := by
  induction letters generalizing text with
  | nil => simp
  | cons c letters ih =>
      obtain ⟨hc, hmore⟩ : c ≠ '"' ∧ '"' ∉ letters := by
        simpa [eq_comm] using hletters
      rw [List.cons_append, scan, if_neg hc, ih _ hmore]
      rw [push_append_ofList]

theorem quote_not_mem_pad {content : List Char} (h : '"' ∉ content) : '"' ∉ pad content := by
  intro hmember
  obtain ⟨c, hc, hpadded⟩ := List.mem_flatMap.mp hmember
  have hsame : c = '"' := by
    unfold padChar at hpadded
    split at hpadded
    · simpa [eq_comm] using hpadded
    · simpa [eq_comm] using hpadded
  exact h (hsame ▸ hc)

/-- Blanks between tokens are passed over. -/
theorem lexChars_blank {c : Char} (h : isBlank c = true) (rest : List Char) :
    lexChars (c :: rest) = lexChars rest := by
  have hpad : padChar c = [c] := by
    apply padChar_of_ne
    · rintro rfl
      exact absurd h (by decide)
    · rintro rfl
      exact absurd h (by decide)
  rw [lexChars, pad_cons, hpad, List.singleton_append, scan, if_pos h, lexChars]

theorem lexChars_opening (rest : List Char) :
    lexChars ('(' :: rest) = .opening :: lexChars rest := by
  rfl

theorem lexChars_closing (rest : List Char) :
    lexChars (')' :: rest) = .closing :: lexChars rest := by
  rfl

/-- A word is not one of the parentheses that would be a token of their own
kind. -/
theorem IsWord.ofWord_ofList {text : List Char} (h : IsWord text) :
    ofWord (String.ofList text) = .word (String.ofList text) := by
  have hparen {c : Char} (hc : isBreak c = true) : String.ofList text ≠ String.singleton c := by
    intro heq
    have hlist : text = [c] := by simpa using congrArg String.toList heq
    have hfree := h.unbroken c (by simp [hlist])
    exact absurd hc (by simp [hfree])
  have hopening : String.ofList text ≠ "(" := hparen (c := '(') (by decide)
  have hclosing : String.ofList text ≠ ")" := hparen (c := ')') (by decide)
  rw [ofWord, if_neg hopening, if_neg hclosing]

/-- A word makes one token, up to the next break. There is nothing to pad in it.
-/
theorem lexChars_word {text rest : List Char} (hword : IsWord text) (hrest : AtBreak rest) :
    lexChars (text ++ rest) = .word (String.ofList text) :: lexChars rest := by
  cases text with
  | nil => exact absurd rfl hword.nonempty
  | cons c letters =>
      have hc : isBreak c = false := hword.unbroken c List.mem_cons_self
      have hblank := isBlank_of_not_isBreak hc
      have hquote : c ≠ '"' := by
        intro heq
        exact hword.unquoted (by simp [heq])
      have hstart : lexChars (c :: (letters ++ rest)) =
          scan (.inWord (String.singleton c)) (pad (letters ++ rest)) := by
        rw [lexChars, pad_cons, padChar_of_not_isBreak hc, List.singleton_append, scan,
          if_neg (by simp [hblank]), if_neg hquote]
      rw [List.cons_append, hstart,
        scan_inWord _ (fun d hd => hword.unbroken d (List.mem_cons_of_mem _ hd)) hrest,
        ← String.ofList_cons, hword.ofWord_ofList]

theorem lexChars_quote (rest : List Char) :
    lexChars ('"' :: rest) = scan (.inQuoted (String.singleton '"')) (pad rest) := by
  rfl

theorem lexChars_literal {content : List Char} (h : '"' ∉ content) (rest : List Char) :
    lexChars ('"' :: (content ++ '"' :: rest)) =
      .quoted (String.ofList ('"' :: (pad content ++ ['"']))) :: lexChars rest := by
  have hpad : pad ('"' :: rest) = '"' :: pad rest := rfl
  rw [lexChars_quote, pad_append, scan_inQuoted _ (quote_not_mem_pad h), hpad, scan,
    if_pos rfl, lexChars, ← String.ofList_cons, String.push_eq_append, String.singleton_eq_ofList,
    ← String.ofList_append, List.cons_append]

theorem lexChars_openLiteral {content : List Char} (h : '"' ∉ content) :
    lexChars ('"' :: content) = [.quoted (trimEnd (String.ofList ('"' :: pad content)))] := by
  have hscan := scan_inQuoted (String.singleton '"') (quote_not_mem_pad h) []
  rw [List.append_nil] at hscan
  rw [lexChars_quote, hscan, scan, ← String.ofList_cons]

theorem trimEnd_ofList (text : List Char) :
    trimEnd (String.ofList text) = String.ofList (text.rdropWhile isBlank) := by
  rw [trimEnd, String.toList_ofList, List.rdropWhile]

theorem trimEnd_trimEnd (text : List Char) :
    trimEnd (trimEnd (String.ofList text)) = trimEnd (String.ofList text) := by
  rw [trimEnd_ofList, trimEnd_ofList, List.rdropWhile_idempotent]

theorem trim_ofList (text : List Char) :
    trim (String.ofList text) = String.ofList ((text.dropWhile isBlank).rdropWhile isBlank) := by
  rw [trim, String.toList_ofList, trimEnd_ofList]

/-- Nothing is left of a text that is trimmed just if it is blank. -/
theorem trim_eq_empty_iff {text : List Char} :
    trim (String.ofList text) = "" ↔ ∀ c ∈ text, isBlank c = true := by
  rw [trim_ofList, String.ofList_eq_empty_iff, List.rdropWhile_eq_nil_iff]
  constructor
  · intro h c hc
    rw [← List.takeWhile_append_dropWhile (p := isBlank) (l := text)] at hc
    rcases List.mem_append.mp hc with hc | hc
    · exact List.mem_takeWhile_imp hc
    · exact h c hc
  · intro h c hc
    exact h c (List.dropWhile_suffix _ |>.subset hc)

theorem trim_concat_blank (text : List Char) {c : Char} (hblank : isBlank c = true) :
    trim (String.ofList (text ++ [c])) = trim (String.ofList text) := by
  rw [trim_ofList, trim_ofList, List.dropWhile_append]
  split
  next hempty =>
    have hnil : text.dropWhile isBlank = [] := by simpa using hempty
    simp [hnil, hblank]
  next => rw [List.rdropWhile_concat_pos _ _ _ hblank]

/-- Trimming a literal without its closing quote leaves its opening quote. -/
theorem exists_trimEnd_quote {content : List Char} (h : '"' ∉ content) :
    ∃ kept, '"' ∉ kept ∧
      trimEnd (String.ofList ('"' :: content)) = String.ofList ('"' :: kept) := by
  have hkept := List.rdropWhile_prefix isBlank ('"' :: content)
  rw [trimEnd_ofList]
  rcases List.prefix_cons_iff.mp hkept with hnil | ⟨kept, hquote, hmore⟩
  · have hblank := List.rdropWhile_eq_nil_iff.mp hnil '"' List.mem_cons_self
    exact absurd hblank (by decide)
  · refine ⟨kept, fun hmember => h (hmore.subset hmember), ?_⟩
    rw [hquote]

/-- From any place of a text on there are letters up to a break, maybe none. -/
theorem exists_letters (text : List Char) :
    ∃ letters rest, text = letters ++ rest ∧ (∀ c ∈ letters, isBreak c = false) ∧ AtBreak rest := by
  induction text with
  | nil => exact ⟨[], [], rfl, by simp, atBreak_nil⟩
  | cons c text ih =>
      by_cases hc : isBreak c = true
      · exact ⟨[], c :: text, rfl, by simp, atBreak_cons hc text⟩
      · obtain ⟨letters, rest, rfl, hletters, hrest⟩ := ih
        exact ⟨c :: letters, rest, rfl, by simpa [hc] using hletters, hrest⟩

/-- Induction over a text by the parts that the lexer cuts it into. -/
@[elab_as_elim] theorem text_induction {motive : List Char → Prop} (nil : motive [])
    (blank : ∀ c rest, isBlank c = true → motive rest → motive (c :: rest))
    (opening : ∀ rest, motive rest → motive ('(' :: rest))
    (closing : ∀ rest, motive rest → motive (')' :: rest))
    (word : ∀ text rest, IsWord text → AtBreak rest → motive rest → motive (text ++ rest))
    (literal : ∀ content rest, '"' ∉ content → motive rest →
      motive ('"' :: (content ++ '"' :: rest)))
    (openLiteral : ∀ content, '"' ∉ content → motive ('"' :: content)) (text : List Char) :
    motive text := by
  induction hlength : text.length using Nat.strongRecOn generalizing text with
  | ind n ih =>
      have hshorter (rest : List Char) (h : rest.length < text.length) : motive rest :=
        ih rest.length (hlength ▸ h) rest rfl
      cases text with
      | nil => exact nil
      | cons c rest =>
          by_cases hbreak : isBreak c = true
          · have hrest : motive rest := hshorter rest (Nat.lt_succ_self _)
            rcases isBreak_iff.mp hbreak with hblank | rfl | rfl
            · exact blank c rest hblank hrest
            · exact opening rest hrest
            · exact closing rest hrest
          by_cases hquote : c = '"'
          · subst hquote
            by_cases hclosed : '"' ∈ rest
            · obtain ⟨content, more, rfl, hcontent⟩ := List.eq_append_cons_of_mem hclosed
              have hmore : motive more := by
                apply hshorter
                simp only [List.length_append, List.length_cons]
                omega
              exact literal content more hcontent hmore
            · exact openLiteral rest hclosed
          · obtain ⟨letters, more, rfl, hletters, hbreaks⟩ := exists_letters rest
            have hmore : motive more := by
              apply hshorter
              simp only [List.length_append, List.length_cons]
              omega
            refine word (c :: letters) more ⟨by simp, by simpa using hquote, ?_⟩ hbreaks hmore
            intro d hd
            rcases List.mem_cons.mp hd with rfl | hd
            · simpa using hbreak
            · exact hletters d hd

/-- Only a blank text has no tokens, since every other part of a text gives one.
-/
theorem lexChars_eq_nil_iff {text : List Char} :
    lexChars text = [] ↔ ∀ c ∈ text, isBlank c = true := by
  induction text using text_induction with
  | nil => simp [lexChars, pad, scan]
  | blank c rest hblank ih => simp [lexChars_blank hblank, ih, hblank]
  | opening rest ih => simp [lexChars_opening, show isBlank '(' = false by decide]
  | closing rest ih => simp [lexChars_closing, show isBlank ')' = false by decide]
  | word text rest hword hbreak ih =>
      obtain ⟨c, hc⟩ := List.exists_mem_of_ne_nil _ hword.nonempty
      have hletter := isBlank_of_not_isBreak (hword.unbroken c hc)
      rw [lexChars_word hword hbreak]
      simp only [reduceCtorEq, false_iff]
      intro hall
      have hblank := hall c (List.mem_append_left _ hc)
      rw [hletter] at hblank
      cases hblank
  | literal content rest hcontent ih =>
      simp [lexChars_literal hcontent, show isBlank '"' = false by decide]
  | openLiteral content hcontent =>
      simp [lexChars_openLiteral hcontent, show isBlank '"' = false by decide]

def isOpenLiteral : Token → Bool
  | .quoted text => !text.toList.tail.contains '"'
  | _ => false

theorem mem_getLast?_cons {α : Type} {items : List α} {last : α} (h : last ∈ items.getLast?)
    (first : α) : last ∈ (first :: items).getLast? := by
  rw [Option.mem_def] at h ⊢
  rw [List.getLast?_cons, h]
  rfl

/-- A blank separates the tokens on its two sides, unless it falls into a
literal that was left open. -/
theorem lexChars_append_blank {c : Char} (hblank : isBlank c = true) {text : List Char}
    (h : ∀ token ∈ (lexChars text).getLast?, token.isOpenLiteral = false) (rest : List Char) :
    lexChars (text ++ c :: rest) = lexChars text ++ lexChars rest := by
  induction text using text_induction with
  | nil => exact lexChars_blank hblank rest
  | blank d text hd ih =>
      rw [lexChars_blank hd] at h ⊢
      rw [List.cons_append, lexChars_blank hd, ih h]
  | opening text ih =>
      rw [lexChars_opening] at h ⊢
      rw [List.cons_append, lexChars_opening, ih fun token hlast =>
        h token (mem_getLast?_cons hlast _), List.cons_append]
  | closing text ih =>
      rw [lexChars_closing] at h ⊢
      rw [List.cons_append, lexChars_closing, ih fun token hlast =>
        h token (mem_getLast?_cons hlast _), List.cons_append]
  | word letters text hword hbreak ih =>
      have hbreakRest : AtBreak (text ++ c :: rest) := by
        cases text with
        | nil => exact atBreak_cons (isBreak_iff.mpr (.inl hblank)) rest
        | cons d text => exact hbreak
      rw [lexChars_word hword hbreak] at h ⊢
      rw [List.append_assoc, lexChars_word hword hbreakRest, ih fun token hlast =>
        h token (mem_getLast?_cons hlast _), List.cons_append]
  | literal content text hcontent ih =>
      rw [lexChars_literal hcontent] at h ⊢
      rw [List.cons_append, List.append_assoc, List.cons_append, lexChars_literal hcontent,
        ih fun token hlast => h token (mem_getLast?_cons hlast _), List.cons_append]
  | openLiteral content hcontent =>
      obtain ⟨kept, hkept, htrim⟩ := exists_trimEnd_quote (quote_not_mem_pad hcontent)
      rw [lexChars_openLiteral hcontent, htrim] at h
      have hclosed := h _ rfl
      simp [isOpenLiteral, hkept] at hclosed

inductive Complete : Token → Prop where
  | opening : Complete .opening
  | closing : Complete .closing
  | word {text : List Char} : IsWord text → Complete (.word (String.ofList text))
  | literal {content : List Char} :
      '"' ∉ content → Complete (.quoted (String.ofList ('"' :: (content ++ ['"']))))

/-- The shape of a whole token sequence. A literal without its closing quote
can only come last, and its text does not end in a blank. -/
inductive Shaped : List Token → Prop where
  | nil : Shaped []
  | cons {token : Token} {rest : List Token} :
      Complete token → Shaped rest → Shaped (token :: rest)
  | openLiteral {content : List Char} :
      '"' ∉ content → trimEnd (String.ofList ('"' :: content)) = String.ofList ('"' :: content) →
        Shaped [.quoted (String.ofList ('"' :: content))]

/-- The tokens of any text have the shape of a token sequence: part by part each
gives a complete token, and an open literal takes the rest of the text. -/
theorem shaped_lexChars (text : List Char) : Shaped (lexChars text) := by
  induction text using text_induction with
  | nil => exact .nil
  | blank c rest hblank ih => rwa [lexChars_blank hblank]
  | opening rest ih => exact .cons .opening ih
  | closing rest ih => exact .cons .closing ih
  | word text rest hword hrest ih =>
      rw [lexChars_word hword hrest]
      exact .cons (.word hword) ih
  | literal content rest hcontent ih =>
      rw [lexChars_literal hcontent]
      exact .cons (.literal (quote_not_mem_pad hcontent)) ih
  | openLiteral content hcontent =>
      rw [lexChars_openLiteral hcontent]
      obtain ⟨kept, hkept, htrim⟩ := exists_trimEnd_quote (quote_not_mem_pad hcontent)
      rw [htrim]
      exact .openLiteral hkept (by rw [← htrim, trimEnd_trimEnd])

theorem Shaped.of_append {before after : List Token} (h : Shaped (before ++ after)) :
    Shaped after := by
  induction before with
  | nil => exact h
  | cons token before ih =>
      rw [List.cons_append] at h
      generalize hrest : before ++ after = rest at h ih
      cases h with
      | cons _ hshaped => exact ih hshaped
      | openLiteral _ _ => exact ih .nil

/-- Every token that has another one behind it is complete. -/
theorem Shaped.complete_of_mem {before after : List Token} {next : Token}
    (h : Shaped (before ++ next :: after)) : ∀ token ∈ before, Complete token := by
  induction before with
  | nil => simp
  | cons first before ih =>
      rw [List.cons_append] at h
      generalize hrest : before ++ next :: after = rest at h ih
      cases h with
      | cons hfirst hshaped =>
          intro token htoken
          rcases List.mem_cons.mp htoken with rfl | htoken
          · exact hfirst
          · exact ih hshaped token htoken
      | openLiteral _ _ => simp at hrest

end FlatLisp.Token
