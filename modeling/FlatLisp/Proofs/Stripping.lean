import FlatLisp.Source.Comment

/-!
How stripping comments goes along with cutting a text into lines and putting
lines together. A newline ends every comment, so only an open literal reaches
from one line into the next; and a stripped text has no comments left that
could be stripped. Whether a text ends inside a literal is the parity of the
quotes that are left in it.
-/

namespace FlatLisp.Source

theorem toList_stripComments (source : String) :
    (stripComments source).toList = stripFrom .code source.toList :=
  String.toList_ofList

/-- A newline ends a comment and is kept itself. -/
theorem stripFrom_newline {region : Region} (h : region ≠ .literal) (rest : List Char) :
    stripFrom region ('\n' :: rest) = '\n' :: stripFrom .code rest := by
  cases region with
  | code => rfl
  | literal => exact absurd rfl h
  | comment => rfl

theorem stripFrom_append_newline {first : List Char} (h : Region.after .code first ≠ .literal)
    (second : List Char) :
    stripFrom .code (first ++ '\n' :: second) =
      stripFrom .code first ++ '\n' :: stripFrom .code second := by
  rw [stripFrom_append, stripFrom_newline h]

theorem after_cons (region : Region) (c : Char) (rest : List Char) :
    region.after (c :: rest) = (region.next c).after rest := rfl

theorem stripFrom_cons_of_comment {region : Region} {c : Char} (h : region.next c = .comment)
    (rest : List Char) : stripFrom region (c :: rest) = stripFrom .comment rest := by
  simp only [stripFrom, h, if_true]

theorem stripFrom_cons_of_ne {region : Region} {c : Char} (h : region.next c ≠ .comment)
    (rest : List Char) : stripFrom region (c :: rest) = c :: stripFrom (region.next c) rest := by
  simp only [stripFrom, h, if_false]

/-- Stripping adds no characters. -/
theorem mem_of_mem_stripFrom {region : Region} {text : List Char} {c : Char}
    (h : c ∈ stripFrom region text) : c ∈ text := by
  induction text generalizing region with
  | nil => exact h
  | cons d rest ih =>
      by_cases hcomment : region.next d = .comment
      · rw [stripFrom_cons_of_comment hcomment] at h
        exact List.mem_cons_of_mem _ (ih h)
      · rw [stripFrom_cons_of_ne hcomment] at h
        rcases List.mem_cons.mp h with rfl | h
        · exact List.mem_cons_self
        · exact List.mem_cons_of_mem _ (ih h)

/-- What is left of a region where comments are stripped. -/
def Region.visible : Region → Region
  | .comment => .code
  | region => region

theorem visible_of_next_eq_comment {region : Region} {c : Char} (h : region.next c = .comment) :
    region.visible = .code := by
  cases region with
  | code => rfl
  | comment => rfl
  | literal =>
      simp only [Region.next] at h
      split at h <;> cases h

/-- Outside of comments the regions of a stripped text are those of the text. -/
theorem next_visible {region : Region} {c : Char} (h : region.next c ≠ .comment) :
    region.visible.next c = region.next c := by
  cases region with
  | code => rfl
  | literal => rfl
  | comment =>
      simp only [Region.next] at h
      split at h
      next hnewline =>
        subst hnewline
        rfl
      next => exact absurd rfl h

theorem visible_of_ne {region : Region} (h : region ≠ .comment) : region.visible = region := by
  cases region with
  | code => rfl
  | literal => rfl
  | comment => exact absurd rfl h

/-- Stripping a stripped text changes nothing, and the regions in it are those
of the text before, less the comments. -/
theorem stripFrom_stripFrom (region : Region) (text : List Char) :
    stripFrom region.visible (stripFrom region text) = stripFrom region text ∧
      region.visible.after (stripFrom region text) = (region.after text).visible := by
  induction text generalizing region with
  | nil => exact ⟨rfl, rfl⟩
  | cons c rest ih =>
      by_cases hcomment : region.next c = .comment
      · rw [stripFrom_cons_of_comment hcomment, after_cons, hcomment,
          visible_of_next_eq_comment hcomment]
        exact ih .comment
      · have hnext := next_visible hcomment
        obtain ⟨hstrip, hafter⟩ := ih (region.next c)
        rw [visible_of_ne hcomment] at hstrip hafter
        rw [stripFrom_cons_of_ne hcomment, stripFrom_cons_of_ne (hnext ▸ hcomment), after_cons,
          after_cons, hnext, hstrip]
        exact ⟨rfl, hafter⟩

/-- A stripped text has no comment left in it. -/
theorem stripFrom_stripComments (source : String) :
    stripFrom .code (stripComments source).toList = (stripComments source).toList := by
  rw [toList_stripComments]
  exact (stripFrom_stripFrom .code source.toList).1

def Region.parity : Region → Nat
  | .literal => 1
  | _ => 0

theorem parity_next_of_ne {region : Region} {c : Char} (h : c ≠ '"') :
    (region.next c).parity = region.parity := by
  cases region with
  | code =>
      simp only [Region.next, h, if_false]
      split <;> rfl
  | literal => simp only [Region.next, h, if_false]
  | comment =>
      simp only [Region.next]
      split <;> rfl

/-- The region that a text leaves tells the parity of the quotes that are kept
of it. A quote in a comment is dropped and does not count. -/
theorem parity_after (region : Region) (text : List Char) :
    (region.after text).parity = (region.parity + (stripFrom region text).count '"') % 2 := by
  induction text generalizing region with
  | nil => cases region <;> rfl
  | cons c rest ih =>
      rw [after_cons, ih]
      by_cases hquote : c = '"'
      · subst hquote
        cases region with
        | code =>
            rw [stripFrom_cons_of_ne (by decide), List.count_cons_self]
            simp only [Region.next, Region.parity, if_true]
            omega
        | literal =>
            rw [stripFrom_cons_of_ne (by decide), List.count_cons_self]
            simp only [Region.next, Region.parity, if_true]
            omega
        | comment =>
            rw [stripFrom_cons_of_comment (by decide)]
            rfl
      · rw [parity_next_of_ne hquote]
        by_cases hcomment : region.next c = .comment
        · rw [stripFrom_cons_of_comment hcomment, hcomment]
        · rw [stripFrom_cons_of_ne hcomment, List.count_cons_of_ne (by simpa using hquote)]

/-- A text ends outside of literals if it has an even number of quotes left. -/
theorem after_ne_literal_iff (text : List Char) :
    Region.after .code text ≠ .literal ↔ (stripFrom .code text).count '"' % 2 = 0 := by
  have hparity := parity_after .code text
  simp only [Region.parity, Nat.zero_add] at hparity
  rw [← hparity]
  cases Region.after .code text <;> decide

end FlatLisp.Source
