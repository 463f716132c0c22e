import FlatLisp.Shell.Completion

/-!
The word at the cursor, by byte offsets. A line can also be cut without taking
it apart: go through its characters with the offset of each, and remember where
the last delimiter before the cursor ended. What that gives are two numbers,
and they are of use only if they lie on boundaries of characters and in the
right order, since otherwise there is no text between them. They always do, for
any cursor, also one inside a character or past the end of the line.

The positions of a line, `line.Pos`, are its boundaries of characters. The main
statement is `completion_finds_word`.
-/

namespace FlatLisp.Shell

/-- The bounds of the word under the cursor in the rest of a line, which starts
at `offset`; the word so far starts at `start`. -/
def boundsFrom (cursor : Nat) : (start offset : Nat) → List Char → Nat × Nat
  | start, offset, [] => (start, offset)
  | start, offset, c :: rest =>
      let next := offset + c.utf8Size
      if isDelimiter c then
        if offset < cursor then boundsFrom cursor next next rest else (start, offset)
      else boundsFrom cursor start next rest

def wordBounds (line : String) (cursor : Nat) : Nat × Nat :=
  boundsFrom cursor 0 0 line.toList

/-- What may stand before the word: nothing, or a text that ends in a delimiter
which starts before the cursor. -/
def EndsBefore (cursor : Nat) (text : String) : Prop :=
  text = "" ∨ ∃ (front : String) (c : Char),
    text = front.push c ∧ isDelimiter c = true ∧ front.utf8ByteSize < cursor

/-- How a line is cut at the word under the cursor. -/
structure WordAt.CutsAt (cut : WordAt) (cursor : Nat) (line : String) : Prop where
  whole : line = cut.before ++ cut.word ++ cut.after
  undelimited : ∀ c ∈ cut.word.toList, isDelimiter c = false
  left : EndsBefore cursor cut.before
  right : cut.after = "" ∨ ∃ c rest,
    cut.after = String.singleton c ++ rest ∧ isDelimiter c = true ∧ cursor ≤ cut.stop

/-- Counting offsets and taking the line apart go together. -/
theorem boundsFrom_eq (cursor : Nat) (before word : String) (rest : List Char) :
    boundsFrom cursor before.utf8ByteSize (before.utf8ByteSize + word.utf8ByteSize) rest =
      ((cutFrom cursor before word rest).start, (cutFrom cursor before word rest).stop) := by
  induction rest generalizing before word with
  | nil => rfl
  | cons c rest ih =>
      simp only [boundsFrom, cutFrom]
      split
      · split
        · have hnext : ((before ++ word).push c).utf8ByteSize =
              before.utf8ByteSize + word.utf8ByteSize + c.utf8Size := by
            rw [String.utf8ByteSize_push, String.utf8ByteSize_append]
          have hrest := ih ((before ++ word).push c) ""
          rw [String.utf8ByteSize_empty, Nat.add_zero, hnext] at hrest
          exact hrest
        · rfl
      · rw [← ih before (word.push c), String.utf8ByteSize_push, Nat.add_assoc]

theorem wordBounds_eq (line : String) (cursor : Nat) :
    wordBounds line cursor = ((cut line cursor).start, (cut line cursor).stop) :=
  boundsFrom_eq cursor "" "" line.toList

/-- Reading on keeps what has been found: no delimiter is in the word so far, and
the text before it ends in one that starts before the cursor. -/
theorem cutsAt_cutFrom {cursor : Nat} {line before word : String} {rest : List Char}
    (hline : line = before ++ word ++ String.ofList rest)
    (hword : ∀ c ∈ word.toList, isDelimiter c = false) (hbefore : EndsBefore cursor before) :
    (cutFrom cursor before word rest).CutsAt cursor line := by
  induction rest generalizing before word with
  | nil => exact ⟨hline, hword, hbefore, .inl rfl⟩
  | cons c rest ih =>
      simp only [cutFrom]
      split
      next hdelimiter =>
        split
        next hcursor =>
          apply ih
          · simp only [hline, String.ofList_cons, String.push_eq_append, String.append_assoc,
              String.empty_append]
          · simp
          · exact .inr ⟨before ++ word, c, rfl, hdelimiter, by rwa [String.utf8ByteSize_append]⟩
        next hcursor =>
          have hright : String.ofList (c :: rest) = String.singleton c ++ String.ofList rest :=
            String.ofList_cons
          exact ⟨hline, hword, hbefore,
            .inr ⟨c, String.ofList rest, hright, hdelimiter, Nat.not_lt.mp hcursor⟩⟩
      next hletter =>
        apply ih
        · simp only [hline, String.ofList_cons, String.push_eq_append, String.append_assoc]
        · intro d hd
          rw [String.toList_push, List.mem_append, List.mem_singleton] at hd
          rcases hd with hd | rfl
          · exact hword d hd
          · simpa using hletter
        · exact hbefore

theorem cutsAt_cut (line : String) (cursor : Nat) : (cut line cursor).CutsAt cursor line :=
  cutsAt_cutFrom (by simp) (by simp) (.inl rfl)

theorem candidates_eq (symbols : List String) (word : String) :
    candidates symbols word = symbols.filter fun symbol => symbol.startsWith word := by
  unfold candidates
  congr 1
  funext symbol
  rw [Bool.eq_iff_iff, List.isPrefixOf_iff_prefix, String.startsWith_string_iff]

namespace WordAt.CutsAt

variable {cut : WordAt} {cursor : Nat} {line : String} {start stop : line.Pos}

theorem exists_positions (h : cut.CutsAt cursor line) :
    ∃ start stop : line.Pos, start.Splits cut.before (cut.word ++ cut.after) ∧
      stop.Splits (cut.before ++ cut.word) cut.after := by
  have hstart : line = cut.before ++ (cut.word ++ cut.after) := by
    rw [← String.append_assoc, ← h.whole]
  exact ⟨_, _, String.Pos.splits_ofEqAppend hstart, String.Pos.splits_ofEqAppend h.whole⟩

/-- A word that does not start the line has a delimiter right before it. -/
theorem isDelimiter_before (h : cut.CutsAt cursor line)
    (hstart : start.Splits cut.before (cut.word ++ cut.after)) (hne : start ≠ line.startPos) :
    isDelimiter ((start.prev hne).get String.Pos.prev_ne_endPos) = true := by
  rcases h.left with hempty | ⟨front, c, hbefore, hdelimiter, -⟩
  · exact absurd (hstart.eq_startPos_iff.mpr hempty) hne
  · obtain ⟨other, hother⟩ := hstart.exists_eq_append_singleton_of_ne_startPos hne
    rw [hbefore, String.append_singleton, String.push_inj] at hother
    rwa [← hother.2]

/-- A word that does not end the line has a delimiter right behind it. -/
theorem isDelimiter_behind (h : cut.CutsAt cursor line)
    (hstop : stop.Splits (cut.before ++ cut.word) cut.after) (hne : stop ≠ line.endPos) :
    isDelimiter (stop.get hne) = true := by
  rcases h.right with hempty | ⟨c, rest, hafter, hdelimiter, -⟩
  · exact absurd (hstop.eq_endPos_iff.mpr hempty) hne
  · obtain ⟨other, hother⟩ := hstop.exists_eq_singleton_append hne
    have hsame : c :: rest.toList = stop.get hne :: other.toList := by
      simpa using congrArg String.toList (hafter.symm.trans hother)
    rwa [← (List.cons.inj hsame).1]

/-- A cursor between two characters is in the word or at one of its ends. -/
theorem cursor_at_word (h : cut.CutsAt cursor line)
    (hstart : start.Splits cut.before (cut.word ++ cut.after))
    (hstop : stop.Splits (cut.before ++ cut.word) cut.after) {place : line.Pos}
    (hplace : place.offset.byteIdx = cursor) : start ≤ place ∧ place ≤ stop := by
  constructor
  · rcases h.left with hempty | ⟨front, c, hbefore, -, hcursor⟩
    · rw [hstart.eq_startPos_iff.mpr hempty]
      exact String.Pos.startPos_le place
    · -- The last delimiter before the word starts before the cursor, so it also ends there.
      rw [hbefore, ← String.append_singleton] at hstart
      have hprev := hstart.prev
      have hlt : start.prev hstart.ne_startPos_of_singleton < place := by
        rw [String.Pos.lt_iff, hprev.offset_eq_rawEndPos, String.Pos.Raw.lt_iff, hplace]
        exact hcursor
      have hnext : (start.prev _).next String.Pos.prev_ne_endPos ≤ place :=
        String.Pos.next_le_of_lt hlt
      rwa [String.Pos.next_prev] at hnext
  · rcases h.right with hempty | ⟨c, rest, -, -, hcursor⟩
    · rw [hstop.eq_endPos_iff.mpr hempty]
      exact String.Pos.le_endPos place
    · rw [String.Pos.le_iff, hstop.offset_eq_rawEndPos, String.Pos.Raw.le_iff, hplace]
      simpa [WordAt.stop, WordAt.start, String.utf8ByteSize_append] using hcursor

end WordAt.CutsAt

/-- For every line and every cursor, in bytes, the bounds of the word under it
are boundaries of characters in the right order, so there is a text between
them. It has no delimiter in it, and stands between delimiters or the ends of
the line. A cursor between two characters lies in it or at one of its ends. What
completion offers in its place are the symbols that begin with it, in the order
given. -/
theorem completion_finds_word (symbols : List String) (line : String) (cursor : Nat) :
    ∃ (start stop : line.Pos) (h : start ≤ stop),
      let word := (line.slice start stop h).copy
      wordBounds line cursor = (start.offset.byteIdx, stop.offset.byteIdx) ∧
        stop.offset.byteIdx ≤ line.utf8ByteSize ∧
        (∀ c ∈ word.toList, isDelimiter c = false) ∧
        (∀ hne : start ≠ line.startPos,
          isDelimiter ((start.prev hne).get String.Pos.prev_ne_endPos) = true) ∧
        (∀ hne : stop ≠ line.endPos, isDelimiter (stop.get hne) = true) ∧
        (∀ place : line.Pos, place.offset.byteIdx = cursor → start ≤ place ∧ place ≤ stop) ∧
        complete symbols line cursor =
          (start.offset.byteIdx, symbols.filter fun symbol => symbol.startsWith word) := by
  have hcut := cutsAt_cut line cursor
  obtain ⟨start, stop, hstart, hstop⟩ := hcut.exists_positions
  obtain ⟨hle, hword⟩ := String.copy_slice_eq_iff_splits.mpr ⟨_, _, hstart, hstop⟩
  have hfirst : (cut line cursor).start = start.offset.byteIdx := by
    rw [hstart.offset_eq_rawEndPos]
    rfl
  have hlast : (cut line cursor).stop = stop.offset.byteIdx := by
    rw [hstop.offset_eq_rawEndPos, WordAt.stop, WordAt.start, ← String.utf8ByteSize_append]
    rfl
  refine ⟨start, stop, hle, ?_, stop.isValid.le_utf8ByteSize, ?_, ?_, ?_, ?_, ?_⟩
  · rw [wordBounds_eq, hfirst, hlast]
  · rw [hword]
    exact hcut.undelimited
  · exact hcut.isDelimiter_before hstart
  · exact hcut.isDelimiter_behind hstop
  · intro place hplace
    exact hcut.cursor_at_word hstart hstop hplace
  · rw [hword, ← candidates_eq, ← hfirst]
    rfl

/-- A word between a wide blank and a parenthesis, with the cursor before its
last character, which takes two bytes. -/
theorem completion_finds_word_wide :
    ∃ start stop place : String.Pos "(é\u3000pré)", place.offset.byteIdx = 8 ∧
      start.offset.byteIdx = 6 ∧ start ≤ place ∧ place ≤ stop ∧ stop.offset.byteIdx = 10 ∧
      complete ["plus", "prénom", "x"] "(é\u3000pré)" 8 = (6, ["prénom"]) := by
  have hline : "(é\u3000pré)" = "(é\u3000pr" ++ "é)" := by decide
  obtain ⟨place, hplace⟩ : ∃ place : String.Pos "(é\u3000pré)", place.offset.byteIdx = 8 := by
    refine ⟨.ofEqAppend hline, ?_⟩
    rw [(String.Pos.splits_ofEqAppend hline).offset_eq_rawEndPos]
    decide
  obtain ⟨start, stop, -, hbounds, -, -, -, -, hcursor, -⟩ :=
    completion_finds_word ["plus", "prénom", "x"] "(é\u3000pré)" 8
  have hfound : wordBounds "(é\u3000pré)" 8 = (6, 10) := by decide +kernel
  rw [hfound, Prod.mk.injEq] at hbounds
  obtain ⟨hstart, hstop⟩ := hcursor place hplace
  exact ⟨start, stop, place, hplace, hbounds.1.symm, hstart, hstop, hbounds.2.symm,
    by decide +kernel⟩

end FlatLisp.Shell
