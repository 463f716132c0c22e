import FlatLisp.Proofs.Lines
import FlatLisp.Proofs.Stripping

/-!
Comments, line by line. Stripping reads a text once and keeps in mind in which
region it is; here the same is said of each line by itself. A line is cut
before the first semicolon that has an even number of quotes before it, where
the quotes of the lines above count as far as these lines are kept. So the
quotes of a comment count nowhere, and a literal that spans lines keeps its
semicolons.
-/

namespace FlatLisp.Source

open FlatLisp.Shell (lines_induction)

/-- Whether a comment can start at a place of a line that has a number of
quotes before it. -/
def StartsComment (quotes : Nat) (text : List Char) (i : Nat) : Prop :=
  text[i]? = some ';' ∧ (quotes + (text.take i).count '"') % 2 = 0

instance (quotes : Nat) (text : List Char) (i : Nat) : Decidable (StartsComment quotes text i) :=
  inferInstanceAs (Decidable (_ ∧ _))

/-- A line without its comment, which starts at the first place where one can.
Without such a place it is the whole line. -/
def cutLine (quotes : Nat) (line : List Char) : List Char :=
  line.take ((List.range line.length).findIdx (StartsComment quotes line))

theorem startsComment_zero {quotes : Nat} {c : Char} {rest : List Char} :
    StartsComment quotes (c :: rest) 0 ↔ c = ';' ∧ quotes % 2 = 0 := by
  simp [StartsComment]

theorem startsComment_succ {quotes : Nat} {c : Char} {rest : List Char} {i : Nat} :
    StartsComment quotes (c :: rest) (i + 1) ↔ StartsComment (quotes + [c].count '"') rest i := by
  have hcount : (c :: rest.take i).count '"' = [c].count '"' + (rest.take i).count '"' := by
    rw [← List.count_append, List.singleton_append]
  rw [StartsComment, StartsComment, List.getElem?_cons_succ, List.take_succ_cons, hcount,
    Nat.add_assoc]

/-- A line is cut character by character: a semicolon behind an even number of
quotes ends it, and any other character stays and is counted if it is a quote.
-/
theorem cutLine_cons (quotes : Nat) (c : Char) (rest : List Char) :
    cutLine quotes (c :: rest) =
      if c = ';' ∧ quotes % 2 = 0 then [] else c :: cutLine (quotes + [c].count '"') rest := by
  have hlater : (fun i => decide (StartsComment quotes (c :: rest) i)) ∘ Nat.succ =
      fun i => decide (StartsComment (quotes + [c].count '"') rest i) :=
    funext fun i => decide_eq_decide.mpr startsComment_succ
  unfold cutLine
  rw [List.length_cons, List.range_succ_eq_map, List.findIdx_cons, List.findIdx_map, hlater]
  by_cases hstart : c = ';' ∧ quotes % 2 = 0
  · rw [if_pos hstart, decide_eq_true (startsComment_zero.mpr hstart)]
    rfl
  · rw [if_neg hstart, decide_eq_false (mt startsComment_zero.mp hstart)]
    rfl

/-- A comment takes up the rest of its line. -/
theorem stripFrom_comment {line : List Char} (h : '\n' ∉ line) : stripFrom .comment line = [] := by
  induction line with
  | nil => rfl
  | cons c rest ih =>
      obtain ⟨hc, hrest⟩ : '\n' ≠ c ∧ '\n' ∉ rest := by simpa using h
      have hnext : Region.next .comment c = .comment := if_neg (Ne.symm hc)
      rw [stripFrom_cons_of_comment hnext, ih hrest]

/-- Outside of comments one starts with a semicolon behind an even number of
quotes. -/
theorem next_eq_comment_iff {region : Region} (h : region ≠ .comment) {c : Char} {quotes : Nat}
    (hparity : region.parity = quotes % 2) :
    region.next c = .comment ↔ c = ';' ∧ quotes % 2 = 0 := by
  rw [← hparity]
  cases region with
  | code =>
      by_cases hquote : c = '"'
      · simp [Region.next, Region.parity, hquote]
      · simp [Region.next, Region.parity, hquote]
  | literal =>
      by_cases hquote : c = '"'
      · simp [Region.next, Region.parity, hquote]
      · simp [Region.next, Region.parity, hquote]
  | comment => exact absurd rfl h

/-- A line is stripped by cutting it, if the quotes before it say whether it
starts inside a literal. -/
theorem stripFrom_line {region : Region} {line : List Char} {quotes : Nat}
    (hregion : region ≠ .comment) (hparity : region.parity = quotes % 2) (hline : '\n' ∉ line) :
    stripFrom region line = cutLine quotes line := by
  induction line generalizing region quotes with
  | nil => rfl
  | cons c rest ih =>
      have hrest : '\n' ∉ rest := fun hnewline => hline (List.mem_cons_of_mem _ hnewline)
      rw [cutLine_cons]
      by_cases hnext : region.next c = .comment
      · rw [stripFrom_cons_of_comment hnext, if_pos ((next_eq_comment_iff hregion hparity).mp hnext),
          stripFrom_comment hrest]
      · have hafter := parity_after region [c]
        rw [stripFrom_cons_of_ne hnext] at hafter ⊢
        rw [if_neg (mt (next_eq_comment_iff hregion hparity).mpr hnext)]
        congr 1
        apply ih hnext _ hrest
        change (region.next c).parity = _ at hafter
        rw [hafter, hparity, stripFrom_nil]
        omega

theorem next_newline_ne_comment (region : Region) : region.next '\n' ≠ .comment := by
  cases region <;> decide

/-- A text is stripped up to the end of a line, and then from the region on that
the line leaves. -/
theorem stripFrom_append_cons_newline (region : Region) (line rest : List Char) :
    stripFrom region (line ++ '\n' :: rest) =
      stripFrom region line ++ '\n' :: stripFrom ((region.after line).next '\n') rest := by
  rw [stripFrom_append, stripFrom_cons_of_ne (next_newline_ne_comment _)]

def cutLines : Nat → List (List Char) → List (List Char)
  | _, [] => []
  | quotes, line :: rest =>
      cutLine quotes line :: cutLines (quotes + (cutLine quotes line).count '"') rest

/-- Stripping a text cuts its lines. -/
theorem splitOn_stripFrom (text : List Char) {region : Region} {quotes : Nat}
    (hregion : region ≠ .comment) (hparity : region.parity = quotes % 2) :
    (stripFrom region text).splitOn '\n' = cutLines quotes (text.splitOn '\n') := by
  -- by lines: behind each of them a literal is open or not, and never a comment
  induction text using lines_induction generalizing region quotes with
  | last line hline =>
      have hkept : '\n' ∉ stripFrom region line := fun h => hline (mem_of_mem_stripFrom h)
      rw [List.splitOn_eq_singleton hkept, List.splitOn_eq_singleton hline,
        stripFrom_line hregion hparity hline]
      rfl
  | line line rest hline ih =>
      have hkept : '\n' ∉ stripFrom region line := fun h => hline (mem_of_mem_stripFrom h)
      have hafter := parity_after region line
      rw [stripFrom_append_cons_newline, List.splitOn_append_cons_self_of_not_mem hkept,
        List.splitOn_append_cons_self_of_not_mem hline, cutLines,
        ← stripFrom_line hregion hparity hline]
      congr 1
      apply ih (next_newline_ne_comment _)
      rw [parity_next_of_ne (by decide), hafter, hparity]
      omega

theorem length_cutLines (quotes : Nat) (lines : List (List Char)) :
    (cutLines quotes lines).length = lines.length := by
  induction lines generalizing quotes with
  | nil => rfl
  | cons line rest ih => rw [cutLines, List.length_cons, List.length_cons, ih]

/-- Each line is cut by the quotes of the lines above it, as far as these are
kept. -/
theorem getElem?_cutLines (quotes : Nat) {lines : List (List Char)} {i : Nat} {line : List Char}
    (h : lines[i]? = some line) :
    (cutLines quotes lines)[i]? =
      some (cutLine (quotes + ((cutLines quotes lines).take i).flatten.count '"') line) := by
  induction lines generalizing quotes i with
  | nil => cases h
  | cons first rest ih =>
      cases i with
      | zero =>
          obtain rfl : first = line := by simpa using h
          simp [cutLines]
      | succ i =>
          rw [List.getElem?_cons_succ] at h
          rw [cutLines, List.getElem?_cons_succ, ih _ h, List.take_succ_cons, List.flatten_cons,
            List.count_append, Nat.add_assoc]

/-- Comments are dropped up to the end of their line, and the newline stays. -/
theorem count_newline_stripFrom (region : Region) (text : List Char) :
    (stripFrom region text).count '\n' = text.count '\n' := by
  induction text generalizing region with
  | nil => rfl
  | cons c rest ih =>
      by_cases hnext : region.next c = .comment
      · have hc : c ≠ '\n' := by
          rintro rfl
          exact next_newline_ne_comment region hnext
        rw [stripFrom_cons_of_comment hnext, ih, List.count_cons_of_ne hc]
      · rw [stripFrom_cons_of_ne hnext, List.count_cons, List.count_cons, ih]

/-- A comment leaves nothing of its line, and nothing open. -/
theorem stripFrom_cons_comment {region : Region} (hregion : region ≠ .literal)
    {comment : List Char} (h : '\n' ∉ comment) (rest : List Char) :
    stripFrom region (';' :: (comment ++ '\n' :: rest)) = '\n' :: stripFrom .code rest := by
  have hnext : region.next ';' = .comment := by
    cases region with
    | code => rfl
    | literal => exact absurd rfl hregion
    | comment => rfl
  have hopen : Region.after .comment comment ≠ .literal := by
    intro hliteral
    have hparity := parity_after .comment comment
    rw [hliteral, stripFrom_comment h] at hparity
    cases hparity
  rw [stripFrom_cons_of_comment hnext, stripFrom_append, stripFrom_comment h,
    stripFrom_newline hopen, List.nil_append]

/-- A literal is kept up to its closing quote, whatever it holds. -/
theorem stripFrom_literal {content : List Char} (h : '"' ∉ content) (rest : List Char) :
    stripFrom .literal (content ++ '"' :: rest) = content ++ '"' :: stripFrom .code rest := by
  induction content with
  | nil => rfl
  | cons c content ih =>
      obtain ⟨hc, hcontent⟩ : '"' ≠ c ∧ '"' ∉ content := by simpa using h
      have hnext : Region.next .literal c = .literal := if_neg (Ne.symm hc)
      rw [List.cons_append, stripFrom_cons_of_ne (by rw [hnext]; decide), hnext, ih hcontent,
        List.cons_append]

/-- The lines that are left of a source text are its lines, cut one after
another. -/
theorem splitOn_stripComments (source : String) :
    (stripComments source).toList.splitOn '\n' = cutLines 0 (source.toList.splitOn '\n') := by
  rw [toList_stripComments]
  exact splitOn_stripFrom source.toList (by decide) rfl

section

variable {before : String}

/-- What is written in a comment is of no consequence for the text behind it. -/
theorem stripComments_append_comment
    (hquotes : (stripComments before).toList.count '"' % 2 = 0) {comment : String}
    (hcomment : '\n' ∉ comment.toList) (rest : String) :
    stripComments (before ++ ";" ++ comment ++ "\n" ++ rest) =
      stripComments before ++ "\n" ++ stripComments rest := by
  rw [toList_stripComments, ← after_ne_literal_iff] at hquotes
  apply String.toList_inj.mp
  simp only [String.toList_append, toList_stripComments, List.append_assoc]
  rw [stripFrom_append]
  exact congrArg _ (stripFrom_cons_comment hquotes hcomment rest.toList)

/-- What is written in a literal is kept, be it on one line or on several. -/
theorem stripComments_append_literal
    (hquotes : (stripComments before).toList.count '"' % 2 = 1) {content : String}
    (hcontent : '"' ∉ content.toList) (rest : String) :
    stripComments (before ++ content ++ "\"" ++ rest) =
      stripComments before ++ content ++ "\"" ++ stripComments rest := by
  have hopen : Region.after .code before.toList = .literal := by
    apply Decidable.of_not_not
    intro hclosed
    rw [toList_stripComments, (after_ne_literal_iff _).mp hclosed] at hquotes
    cases hquotes
  apply String.toList_inj.mp
  simp only [String.toList_append, toList_stripComments, List.append_assoc]
  rw [stripFrom_append, hopen]
  exact congrArg _ (stripFrom_literal hcontent rest.toList)

end

theorem stripComments_stripComments (source : String) :
    stripComments (stripComments source) = stripComments source := by
  apply String.toList_inj.mp
  rw [toList_stripComments, stripFrom_stripComments]

/-- Stripping comments keeps the newlines of a source text and cuts each line
before the first semicolon behind an even number of quotes, which are counted
over what is kept of the lines above and over the line itself. So what stands
in a comment, quotes included, is of no consequence for the text behind it;
what stands in a literal, over any number of lines, is kept with its
semicolons; and stripping once more changes nothing. -/
theorem comments_cut_by_line (source : String) :
    let lines := source.toList.splitOn '\n'
    let kept := (stripComments source).toList.splitOn '\n'
    (stripComments source).toList.count '\n' = source.toList.count '\n' ∧
      kept.length = lines.length ∧
      (∀ i line, lines[i]? = some line → ∃ cut, kept[i]? = some cut ∧ cut <+: line ∧
        cut = cutLine ((kept.take i).flatten.count '"') line) ∧
      (∀ comment rest : String, (stripComments source).toList.count '"' % 2 = 0 →
        '\n' ∉ comment.toList →
        stripComments (source ++ ";" ++ comment ++ "\n" ++ rest) =
          stripComments source ++ "\n" ++ stripComments rest) ∧
      (∀ content rest : String, (stripComments source).toList.count '"' % 2 = 1 →
        '"' ∉ content.toList →
        stripComments (source ++ content ++ "\"" ++ rest) =
          stripComments source ++ content ++ "\"" ++ stripComments rest) ∧
      stripComments (stripComments source) = stripComments source := by
  intro lines kept
  have hkept : kept = cutLines 0 lines := splitOn_stripComments source
  refine ⟨?_, ?_, ?_, ?_, ?_, stripComments_stripComments source⟩
  · rw [toList_stripComments, count_newline_stripFrom]
  · rw [hkept, length_cutLines]
  · intro i line hline
    have hcut := getElem?_cutLines 0 hline
    rw [← hkept, Nat.zero_add] at hcut
    exact ⟨_, hcut, List.take_prefix _ _, rfl⟩
  · intro comment rest hquotes hcomment
    exact stripComments_append_comment hquotes hcomment rest
  · intro content rest hquotes hcontent
    exact stripComments_append_literal hquotes hcontent rest

/-- A quote in a comment, and below it a literal with a semicolon that goes on
to the next line. -/
theorem comments_cut_by_line_spanning :
    let source := "a ; \"x\n(b \";c"
    (source.toList.splitOn '\n')[1]? = some "(b \";c".toList ∧
      ((stripComments source).toList.splitOn '\n')[1]? = some "(b \";c".toList ∧
      (stripComments source).toList.count '"' % 2 = 1 ∧
      stripComments (source ++ "\n;" ++ "\"" ++ ";d") =
        stripComments source ++ "\n;" ++ "\"" ++ stripComments ";d" ∧
      (stripComments "a").toList.count '"' % 2 = 0 ∧
      stripComments ("a" ++ ";" ++ " \"x" ++ "\n" ++ "(b)") =
        stripComments "a" ++ "\n" ++ stripComments "(b)" := by
  intro source
  have hline : (source.toList.splitOn '\n')[1]? = some "(b \";c".toList := by decide +kernel
  have hodd : (stripComments source).toList.count '"' % 2 = 1 := by decide +kernel
  have heven : (stripComments "a").toList.count '"' % 2 = 0 := by decide +kernel
  obtain ⟨-, -, hlines, -, hliteral, -⟩ := comments_cut_by_line source
  obtain ⟨-, -, -, hcomment, -⟩ := comments_cut_by_line "a"
  obtain ⟨cut, hkept, -, hcut⟩ := hlines 1 _ hline
  have hwhole : cut = "(b \";c".toList := hcut.trans (by decide +kernel)
  rw [hwhole] at hkept
  exact ⟨hline, hkept, hodd, hliteral "\n;" ";d" hodd (by decide), heven,
    hcomment " \"x" "(b)" heven (by decide)⟩

end FlatLisp.Source
