import FlatLisp.Shell.Dialogue

/-!
How a dialogue cuts its readings into units. The readings are taken in
stretches: a blank line, a block up to the line that closes it, or a block that
is dropped because a line behind it cannot be read. A stretch gives at most one
unit, and each reading belongs to one stretch, so no line is lost on the way or
gets into two units. The stretches go on up to the word that leaves the shell
or the end of the input.

The same units come from a stream that is asked for one unit after another. It
keeps the block in progress in a buffer and takes an empty buffer for the sign
that there is none, which is right because a block that waits for a parenthesis
is never an empty text.
-/

namespace FlatLisp.Shell

open FlatLisp.Source (nesting stripComments)

/-- The text of a block: its lines without their comments, joined by blanks. -/
def blockText (lines : List String) : String :=
  " ".intercalate (lines.map stripComments)

/-- Outside of a block, any line starts one that is neither blank nor the word
that leaves the shell. -/
structure StartsBlock (line : String) : Prop where
  visible : Text.trim (stripComments line) ≠ ""
  stays : Text.trim (stripComments line) ≠ "exit"

/-- The lines of a block in progress, or none: the first of them starts a block,
and since then it has always waited for a parenthesis. -/
structure Pending (lines : List String) : Prop where
  starts : ∀ line ∈ lines.head?, StartsBlock line
  waits : ∀ taken, taken <+: lines → taken ≠ [] → 0 < nesting (blockText taken)

/-- Readings that are taken together, and the unit that they give. -/
inductive Stretch : List Reading → Option String → Prop where
  | blank {line : String} (blank : Text.trim (stripComments line) = "") :
      Stretch [.line line] none
  /-- A block and the first line at which it does not wait any more. -/
  | unit {lines : List String} {last : String} (pending : Pending lines)
      (starts : lines = [] → StartsBlock last)
      (balanced : nesting (blockText (lines ++ [last])) ≤ 0) :
      Stretch ((lines ++ [last]).map .line) (some (blockText (lines ++ [last])))
  | dropped {lines : List String} (pending : Pending lines) :
      Stretch (lines.map .line ++ [.unreadable]) none

def AtEnd (readings : List Reading) : Prop := ∀ reading ∈ readings.head?, reading = .ended

/-- Readings at which a dialogue ends, with those that it leaves unread. -/
inductive Final : List Reading → Prop where
  | left {line : String} (leaves : Text.trim (stripComments line) = "exit")
      (unread : List Reading) : Final (.line line :: unread)
  | ended {lines : List String} (pending : Pending lines) {unread : List Reading}
      (ended : AtEnd unread) : Final (lines.map .line ++ unread)

inductive Cut : List Reading → List String → Prop where
  | final {readings : List Reading} (final : Final readings) : Cut readings []
  | stretch {first rest : List Reading} {unit : Option String} {units : List String}
      (stretch : Stretch first unit) (cut : Cut rest units) :
      Cut (first ++ rest) (unit.toList ++ units)

theorem blockText_nil : blockText [] = "" := rfl

/-- One more line is joined to a block by a blank, and the first line is taken
as it is. -/
theorem blockText_concat (lines : List String) (line : String) :
    blockText (lines ++ [line]) =
      if lines = [] then stripComments line
      else blockText lines ++ " " ++ stripComments line := by
  split
  next hnone =>
    subst hnone
    rfl
  next hsome =>
    have hlines : lines.map stripComments ≠ [] := by simpa using hsome
    rw [blockText, List.map_append, List.map_singleton,
      String.intercalate_append_of_ne_nil hlines (by simp), blockText]
    rfl

namespace Pending

theorem nil : Pending [] := by
  constructor
  · simp
  · intro taken htaken hsome
    exact absurd (List.prefix_nil.mp htaken) hsome

/-- A block that is in progress was in progress after each of its lines. -/
theorem left {lines more : List String} (h : Pending (lines ++ more)) : Pending lines := by
  constructor
  · intro line hline
    apply h.starts line
    rw [List.head?_append, hline]
    rfl
  · intro taken htaken
    exact h.waits taken (htaken.trans (List.prefix_append _ _))

/-- A block stays in progress with a line behind which it still waits for a
parenthesis. -/
theorem concat {lines : List String} (h : Pending lines) {line : String}
    (hstarts : lines = [] → StartsBlock line)
    (hwaits : 0 < nesting (blockText (lines ++ [line]))) : Pending (lines ++ [line]) := by
  constructor
  · intro first hfirst
    cases lines with
    | nil =>
        obtain rfl : line = first := by simpa using hfirst
        exact hstarts rfl
    | cons other lines => exact h.starts first hfirst
  · intro taken htaken hsome
    rcases List.prefix_concat_iff.mp htaken with rfl | htaken
    · exact hwaits
    · exact h.waits taken htaken hsome

theorem starts_next {lines more : List String} {line : String}
    (h : Pending (lines ++ line :: more)) : lines = [] → StartsBlock line := by
  rintro rfl
  exact h.starts line rfl

/-- A block in progress is empty only if it has no lines: it waits for a
parenthesis, so it has an opening one. -/
theorem blockText_eq_empty_iff {lines : List String} (h : Pending lines) :
    blockText lines = "" ↔ lines = [] := by
  constructor
  · intro hempty
    by_cases hnone : lines = []
    · exact hnone
    · have hwaits := h.waits lines List.prefix_rfl hnone
      rw [hempty] at hwaits
      exact absurd hwaits (by decide)
  · rintro rfl
    rfl

end Pending

/-- What a line is, behind the lines of a block or outside of one. -/
theorem line_cases (lines : List String) (line : String) :
    (lines = [] ∧ Text.trim (stripComments line) = "") ∨
      (lines = [] ∧ Text.trim (stripComments line) = "exit") ∨
      (lines = [] → StartsBlock line) := by
  by_cases hblank : Text.trim (stripComments line) = ""
  · cases lines with
    | nil => exact .inl ⟨rfl, hblank⟩
    | cons other lines => exact .inr (.inr (by simp))
  · by_cases hleaves : Text.trim (stripComments line) = "exit"
    · cases lines with
      | nil => exact .inr (.inl ⟨rfl, hleaves⟩)
      | cons other lines => exact .inr (.inr (by simp))
    · exact .inr (.inr fun _ => ⟨hblank, hleaves⟩)

/-- Induction over readings, given the lines of the block in progress. -/
@[elab_as_elim] theorem pending_induction {motive : List String → List Reading → Prop}
    (ended : ∀ lines unread, Pending lines → AtEnd unread → motive lines unread)
    (unreadable : ∀ lines rest, Pending lines → motive [] rest →
      motive lines (.unreadable :: rest))
    (blank : ∀ line rest, Text.trim (stripComments line) = "" → motive [] rest →
      motive [] (.line line :: rest))
    (left : ∀ line rest, Text.trim (stripComments line) = "exit" → motive [] (.line line :: rest))
    (waits : ∀ lines line rest, Pending lines → (lines = [] → StartsBlock line) →
      0 < nesting (blockText (lines ++ [line])) → motive (lines ++ [line]) rest →
      motive lines (.line line :: rest))
    (closes : ∀ lines line rest, Pending lines → (lines = [] → StartsBlock line) →
      ¬ 0 < nesting (blockText (lines ++ [line])) → motive [] rest →
      motive lines (.line line :: rest))
    {lines : List String} (h : Pending lines) (readings : List Reading) :
    motive lines readings := by
  induction readings generalizing lines with
  | nil => exact ended lines [] h (by simp [AtEnd])
  | cons reading rest ih =>
      cases reading with
      | ended => exact ended lines (.ended :: rest) h (by simp [AtEnd])
      | unreadable => exact unreadable lines rest h (ih .nil)
      | line line =>
          rcases line_cases lines line with ⟨rfl, hblank⟩ | ⟨rfl, hleaves⟩ | hstarts
          · exact blank line rest hblank (ih .nil)
          · exact left line rest hleaves
          · by_cases hwaits : 0 < nesting (blockText (lines ++ [line]))
            · exact waits lines line rest h hstarts hwaits (ih (h.concat hstarts hwaits))
            · exact closes lines line rest h hstarts hwaits (ih .nil)

def inProgress (lines : List String) : Option String :=
  if lines = [] then none else some (blockText lines)

theorem inProgress_nil : inProgress [] = none := rfl

theorem inProgress_concat (lines : List String) (line : String) :
    inProgress (lines ++ [line]) = some (blockText (lines ++ [line])) :=
  if_neg (by simp)

theorem react_line {lines : List String} {line : String} (hstarts : lines = [] → StartsBlock line) :
    react (inProgress lines) (.line line) = gather (blockText (lines ++ [line])) := by
  rw [blockText_concat]
  by_cases hnone : lines = []
  · obtain ⟨hvisible, hstays⟩ := hstarts hnone
    rw [inProgress, if_pos hnone, if_pos hnone, react, if_neg hvisible, if_neg hstays]
  · rw [inProgress, if_neg hnone, if_neg hnone, react]

section

variable (settings : Settings)

def unitsFrom (block : Option String) (readings : List Reading) : List String :=
  (dialogue settings block readings).filterMap Event.unit?

theorem unitsFrom_cons (block : Option String) (reading : Reading) (rest : List Reading) :
    unitsFrom settings block (reading :: rest) =
      match react block reading with
      | .wait next => unitsFrom settings next rest
      | .submit unit => unit :: unitsFrom settings none rest
      | .complain _ => unitsFrom settings none rest
      | .leave _ => [] := by
  have hprompt : (promptEvents settings block).filterMap Event.unit? = [] := by
    unfold promptEvents
    split <;> rfl
  simp only [unitsFrom, dialogue, List.filterMap_append, hprompt, List.nil_append]
  cases react block reading <;> rfl

theorem unitsFrom_ended (block : Option String) {unread : List Reading} (h : AtEnd unread) :
    unitsFrom settings block unread = [] := by
  cases unread with
  | nil =>
      unfold unitsFrom dialogue promptEvents
      split <;> rfl
  | cons reading rest =>
      obtain rfl : reading = .ended := h reading rfl
      rw [unitsFrom_cons, react]

theorem unitsFrom_unreadable (block : Option String) (rest : List Reading) :
    unitsFrom settings block (.unreadable :: rest) = unitsFrom settings none rest := by
  rw [unitsFrom_cons, react]

/-- A line that joins a block or starts one closes it or leaves it waiting. -/
theorem unitsFrom_line {lines : List String} {line : String}
    (hstarts : lines = [] → StartsBlock line) (rest : List Reading) :
    unitsFrom settings (inProgress lines) (.line line :: rest) =
      if 0 < nesting (blockText (lines ++ [line])) then
        unitsFrom settings (inProgress (lines ++ [line])) rest
      else blockText (lines ++ [line]) :: unitsFrom settings none rest := by
  rw [unitsFrom_cons, react_line hstarts, gather, inProgress_concat]
  by_cases hwaits : 0 < nesting (blockText (lines ++ [line]))
  · rw [if_pos hwaits, if_pos hwaits]
  · rw [if_neg hwaits, if_neg hwaits]

theorem unitsFrom_blank {line : String} (h : Text.trim (stripComments line) = "")
    (rest : List Reading) :
    unitsFrom settings none (.line line :: rest) = unitsFrom settings none rest := by
  rw [unitsFrom_cons, react, if_pos h]

theorem unitsFrom_left {line : String} (h : Text.trim (stripComments line) = "exit")
    (rest : List Reading) : unitsFrom settings none (.line line :: rest) = [] := by
  have hvisible : Text.trim (stripComments line) ≠ "" := by
    rw [h]
    decide
  rw [unitsFrom_cons, react, if_neg hvisible, if_pos h]

/-- The lines of a block in progress give no unit yet. -/
theorem unitsFrom_pending (earlier : List String) {lines : List String}
    (h : Pending (earlier ++ lines)) (rest : List Reading) :
    unitsFrom settings (inProgress earlier) (lines.map .line ++ rest) =
      unitsFrom settings (inProgress (earlier ++ lines)) rest := by
  induction lines generalizing earlier with
  | nil => rw [List.append_nil, List.map_nil, List.nil_append]
  | cons line lines ih =>
      have hstarts := h.starts_next
      rw [List.append_cons] at h ⊢
      have hwaits := h.left.waits _ List.prefix_rfl (by simp)
      rw [List.map_cons, List.cons_append, unitsFrom_line settings hstarts, if_pos hwaits, ih _ h]

/-- A stretch gives its unit, and the dialogue goes on behind it outside of any
block. -/
theorem unitsFrom_stretch {first : List Reading} {unit : Option String} (h : Stretch first unit)
    (rest : List Reading) :
    unitsFrom settings none (first ++ rest) = unit.toList ++ unitsFrom settings none rest := by
  cases h with
  | blank hblank => exact unitsFrom_blank settings hblank rest
  | @unit lines last hpending hstarts hbalanced =>
      have hrun := unitsFrom_pending settings [] hpending (.line last :: rest)
      rw [List.map_append, List.append_assoc]
      refine hrun.trans ?_
      rw [List.nil_append, unitsFrom_line settings hstarts, if_neg (Int.not_lt.mpr hbalanced)]
      rfl
  | @dropped lines hpending =>
      have hrun := unitsFrom_pending settings [] hpending (.unreadable :: rest)
      rw [List.append_assoc]
      refine hrun.trans ?_
      rw [unitsFrom_unreadable]
      rfl

theorem unitsFrom_final {readings : List Reading} (h : Final readings) :
    unitsFrom settings none readings = [] := by
  cases h with
  | left hleaves unread => exact unitsFrom_left settings hleaves unread
  | @ended lines hpending unread hended =>
      exact (unitsFrom_pending settings [] hpending unread).trans
        (unitsFrom_ended settings _ hended)

/-- There is no other way to cut the readings than that of the dialogue. -/
theorem Cut.units_eq {readings : List Reading} {given : List String} (h : Cut readings given) :
    units settings readings = given := by
  induction h with
  | final hfinal => exact unitsFrom_final settings hfinal
  | stretch hstretch _ ih =>
      rw [← ih]
      exact unitsFrom_stretch settings hstretch _

/-- The units are the texts of blocks that do not wait for a parenthesis, and
the lines of these were read one after another, each for one block only. -/
theorem Cut.exists_blocks {readings : List Reading} {given : List String} (h : Cut readings given) :
    ∃ blocks : List (List String), given = blocks.map blockText ∧
      List.Sublist (blocks.flatten.map .line) readings ∧
      ∀ block ∈ blocks, nesting (blockText block) ≤ 0 := by
  induction h with
  | final hfinal => exact ⟨[], rfl, List.nil_sublist _, by simp⟩
  | @stretch first rest unit units hstretch _ ih =>
      obtain ⟨blocks, rfl, hread, hbalanced⟩ := ih
      have hlater := hread.trans (List.sublist_append_right first rest)
      cases hstretch with
      | blank hblank => exact ⟨blocks, rfl, hlater, hbalanced⟩
      | dropped hpending => exact ⟨blocks, rfl, hlater, hbalanced⟩
      | @unit lines last hpending hstarts hlast =>
          refine ⟨(lines ++ [last]) :: blocks, rfl, ?_, ?_⟩
          · rw [List.flatten_cons, List.map_append]
            exact List.Sublist.append (List.Sublist.refl _) hread
          · exact List.forall_mem_cons.mpr ⟨hlast, hbalanced⟩

/-- The readings behind a block in progress are cut together with its lines. -/
theorem Pending.cut {lines : List String} (h : Pending lines) (readings : List Reading) :
    Cut (lines.map .line ++ readings) (unitsFrom settings (inProgress lines) readings) := by
  have htaken (lines : List String) (line : String) (rest : List Reading) :
      lines.map Reading.line ++ .line line :: rest = (lines ++ [line]).map .line ++ rest := by
    simp
  refine pending_induction ?ended ?unreadable ?blank ?left ?waits ?closes h readings
  case ended =>
    intro lines unread hpending hended
    rw [unitsFrom_ended settings _ hended]
    exact .final (.ended hpending hended)
  case unreadable =>
    intro lines rest hpending ih
    rw [List.append_cons, unitsFrom_unreadable]
    exact .stretch (.dropped hpending) ih
  case blank =>
    intro line rest hblank ih
    rw [inProgress_nil, unitsFrom_blank settings hblank]
    exact .stretch (.blank hblank) ih
  case left =>
    intro line rest hleaves
    rw [inProgress_nil, unitsFrom_left settings hleaves]
    exact .final (.left hleaves rest)
  case waits =>
    intro lines line rest hpending hstarts hwaits ih
    rw [htaken, unitsFrom_line settings hstarts, if_pos hwaits]
    exact ih
  case closes =>
    intro lines line rest hpending hstarts hcloses ih
    rw [htaken, unitsFrom_line settings hstarts, if_neg hcloses]
    exact .stretch (.unit hpending hstarts (Int.not_lt.mp hcloses)) ih

end

/-- A stream of units: the text of the block in progress, and the readings that
it has not yet taken. -/
structure UnitStream where
  buffer : String
  unread : List Reading

/-- Takes readings until a unit is complete or the stream ends, and gives the
unit, if there is one, and what is left of the stream. -/
def nextFrom (buffer : String) : List Reading → Option String × UnitStream
  | [] => (none, ⟨"", []⟩)
  | .ended :: rest => (none, ⟨"", rest⟩)
  | .unreadable :: rest => nextFrom "" rest
  | .line text :: rest =>
      let line := stripComments text
      if buffer = "" ∧ Text.trim line = "" then nextFrom buffer rest
      else if buffer = "" ∧ Text.trim line = "exit" then (none, ⟨buffer, rest⟩)
      else
        let block := if buffer = "" then line else buffer ++ " " ++ line
        if 0 < nesting block then nextFrom block rest else (some block, ⟨"", rest⟩)

/-- Nothing is left in the buffer when a unit is given or the stream ends. -/
theorem buffer_nextFrom (buffer : String) (readings : List Reading) :
    (nextFrom buffer readings).2.buffer = "" := by
  fun_induction nextFrom buffer readings with
  | case1 => rfl
  | case2 => rfl
  | case3 buffer rest ih => exact ih
  | case4 buffer text rest line hblank ih => exact ih
  | case5 buffer text rest line hvisible hleaves => exact hleaves.1
  | case6 buffer text rest line hvisible hstays block hwaits ih => exact ih
  | case7 => rfl

/-- A unit takes at least one reading, so asking for units comes to an end. -/
theorem length_unread_nextFrom {buffer unit : String} {readings : List Reading}
    (h : (nextFrom buffer readings).1 = some unit) :
    (nextFrom buffer readings).2.unread.length < readings.length := by
  fun_induction nextFrom buffer readings with
  | case1 => cases h
  | case2 => cases h
  | case3 buffer rest ih => exact Nat.lt_succ_of_lt (ih h)
  | case4 buffer text rest line hblank ih => exact Nat.lt_succ_of_lt (ih h)
  | case5 => cases h
  | case6 buffer text rest line hvisible hstays block hwaits ih => exact Nat.lt_succ_of_lt (ih h)
  | case7 => exact Nat.lt_succ_self _

def UnitStream.next (stream : UnitStream) : Option String × UnitStream :=
  nextFrom stream.buffer stream.unread

def UnitStream.units (stream : UnitStream) : List String :=
  match h : stream.next with
  | (none, _) => []
  | (some unit, later) =>
      have : later.unread.length < stream.unread.length := by
        rw [UnitStream.next] at h
        have hlength := length_unread_nextFrom (congrArg Prod.fst h)
        rwa [h] at hlength
      unit :: later.units
termination_by stream.unread.length

theorem UnitStream.units_of_none {stream later : UnitStream} (h : stream.next = (none, later)) :
    stream.units = [] := by
  rw [UnitStream.units]
  split <;> simp_all

theorem UnitStream.units_of_some {stream later : UnitStream} {unit : String}
    (h : stream.next = (some unit, later)) : stream.units = unit :: later.units := by
  rw [UnitStream.units]
  split <;> simp_all

theorem nextFrom_ended (buffer : String) {unread : List Reading} (h : AtEnd unread) :
    ∃ later, nextFrom buffer unread = (none, later) := by
  cases unread with
  | nil => exact ⟨_, rfl⟩
  | cons reading rest =>
      obtain rfl : reading = .ended := h reading rfl
      exact ⟨_, rfl⟩

theorem nextFrom_blank {line : String} (h : Text.trim (stripComments line) = "")
    (rest : List Reading) : nextFrom "" (.line line :: rest) = nextFrom "" rest := by
  rw [nextFrom, if_pos ⟨rfl, h⟩]

theorem nextFrom_left {line : String} (h : Text.trim (stripComments line) = "exit")
    (rest : List Reading) : nextFrom "" (.line line :: rest) = (none, ⟨"", rest⟩) := by
  have hvisible : ¬ ("" = "" ∧ Text.trim (stripComments line) = "") := by
    rw [h]
    decide
  rw [nextFrom, if_neg hvisible, if_pos ⟨rfl, h⟩]

/-- With the lines of a block in progress in the buffer, the stream takes the
next line as the dialogue does. -/
theorem nextFrom_line {lines : List String} (hpending : Pending lines) {line : String}
    (hstarts : lines = [] → StartsBlock line) (rest : List Reading) :
    nextFrom (blockText lines) (.line line :: rest) =
      if 0 < nesting (blockText (lines ++ [line])) then
        nextFrom (blockText (lines ++ [line])) rest
      else (some (blockText (lines ++ [line])), ⟨"", rest⟩) := by
  have hempty := hpending.blockText_eq_empty_iff
  have hvisible : ¬ (blockText lines = "" ∧ Text.trim (stripComments line) = "") := by
    rintro ⟨hnone, hblank⟩
    exact (hstarts (hempty.mp hnone)).visible hblank
  have hstays : ¬ (blockText lines = "" ∧ Text.trim (stripComments line) = "exit") := by
    rintro ⟨hnone, hleaves⟩
    exact (hstarts (hempty.mp hnone)).stays hleaves
  have hblock : (if blockText lines = "" then stripComments line
      else blockText lines ++ " " ++ stripComments line) = blockText (lines ++ [line]) := by
    rw [blockText_concat]
    simp only [hempty]
  rw [nextFrom, if_neg hvisible, if_neg hstays, hblock]

/-- The units of a dialogue are the next one of the stream and those behind it.
The stream keeps its block as a text and the dialogue as an option; both are
given by the lines of the block. -/
theorem unitsFrom_nextFrom (settings : Settings) {lines : List String} (h : Pending lines)
    (readings : List Reading) :
    unitsFrom settings (inProgress lines) readings =
      match nextFrom (blockText lines) readings with
      | (none, _) => []
      | (some unit, later) => unit :: unitsFrom settings none later.unread := by
  refine pending_induction ?ended ?unreadable ?blank ?left ?waits ?closes h readings
  case ended =>
    intro lines unread hpending hended
    obtain ⟨later, hnext⟩ := nextFrom_ended (blockText lines) hended
    rw [unitsFrom_ended settings _ hended, hnext]
  case unreadable =>
    intro lines rest hpending ih
    rw [unitsFrom_unreadable]
    exact ih
  case blank =>
    intro line rest hblank ih
    rw [inProgress_nil, blockText_nil, unitsFrom_blank settings hblank, nextFrom_blank hblank]
    exact ih
  case left =>
    intro line rest hleaves
    rw [inProgress_nil, blockText_nil, unitsFrom_left settings hleaves, nextFrom_left hleaves]
  case waits =>
    intro lines line rest hpending hstarts hwaits ih
    rw [unitsFrom_line settings hstarts, nextFrom_line hpending hstarts, if_pos hwaits,
      if_pos hwaits, ih]
  case closes =>
    intro lines line rest hpending hstarts hcloses ih
    rw [unitsFrom_line settings hstarts, nextFrom_line hpending hstarts, if_neg hcloses,
      if_neg hcloses]

/-- A stream gives the units of the dialogue. -/
theorem units_unitStream (settings : Settings) (readings : List Reading) :
    UnitStream.units ⟨"", readings⟩ = units settings readings := by
  -- by the readings that are left behind a unit: the stream goes on with an empty buffer
  induction hlength : readings.length using Nat.strongRecOn generalizing readings with
  | ind n ih =>
      have hunits := unitsFrom_nextFrom settings .nil readings
      rcases hnext : nextFrom "" readings with ⟨unit, buffer, unread⟩
      have hstream : UnitStream.next ⟨"", readings⟩ = (unit, ⟨buffer, unread⟩) := hnext
      rw [blockText_nil, hnext] at hunits
      cases unit with
      | none => exact (UnitStream.units_of_none hstream).trans hunits.symm
      | some unit =>
          have hbuffer := buffer_nextFrom "" readings
          have hshorter := length_unread_nextFrom (congrArg Prod.fst hnext)
          rw [hnext] at hbuffer hshorter
          obtain rfl : buffer = "" := hbuffer
          rw [UnitStream.units_of_some hstream, ih unread.length (hlength ▸ hshorter) unread rfl]
          exact hunits.symm

/-- A dialogue cuts its readings into units as the stretches say, and in no
other way; so a line gets into one unit at most. A stream that is asked for
units until it has none gives the same ones, and leaves an empty buffer each
time. -/
theorem units_cut_by_stretches (settings : Settings) (readings : List Reading) :
    (∀ given, Cut readings given ↔ units settings readings = given) ∧
      (∃ blocks : List (List String), units settings readings = blocks.map blockText ∧
        List.Sublist (blocks.flatten.map .line) readings) ∧
      UnitStream.units ⟨"", readings⟩ = units settings readings ∧
      ∀ buffer, (UnitStream.next ⟨buffer, readings⟩).2.buffer = "" := by
  have hcut : Cut readings (units settings readings) := Pending.nil.cut settings readings
  refine ⟨fun given => ⟨?_, ?_⟩, ?_, ?_, ?_⟩
  · intro hgiven
    exact hgiven.units_eq settings
  · rintro rfl
    exact hcut
  · obtain ⟨blocks, hunits, hread, -⟩ := hcut.exists_blocks
    exact ⟨blocks, hunits, hread⟩
  · exact units_unitStream settings readings
  · intro buffer
    exact buffer_nextFrom buffer readings

-- inside a block the word `exit` and blank lines are text; a line that cannot be read drops it
example :
    units {} [.line "(a", .unreadable, .line " ; x", .line "(b ; (", .line "", .line "exit)",
      .line "c", .line "(d", .line ")", .line "exit", .line "e"] =
      ["(b   exit)", "c", "(d )"] := by
  decide +kernel

end FlatLisp.Shell
