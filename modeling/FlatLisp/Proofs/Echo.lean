import FlatLisp.Shell.Style

/-!
The echo of a form. With colours on, a form is written with codes around each of
its parentheses; which codes these are makes no difference here. Its spans say
where: an echo is made of plain text, that is, the texts of atoms and the blanks
between elements, and of parentheses, each in a style. Shown with their codes the
spans are the echo; bare, without the codes, they are the source text of the
form. No code is looked for in a text, since the text of an atom may hold one
itself.

How many lists are open at a parenthesis is counted along the spans. The count
gives the colour, so two parentheses that match have the same one.

The main statement is `echo_shows_source`.
-/

namespace FlatLisp

/-- To join texts with blanks between them is to put a blank before each text
but the first. -/
theorem intercalate_blank (first : String) (rest : List String) :
    String.intercalate " " (first :: rest) = first ++ String.join (rest.map (" " ++ ·)) := by
  induction rest generalizing first with
  | nil => simp
  | cons next rest ih =>
      rw [String.intercalate_cons_cons, ih, List.map_cons, String.join_cons, String.append_assoc,
        String.append_assoc]

theorem Form.sourceRest_eq_join (elements : List Form) :
    sourceRest elements = String.join ((elements.map source).map (" " ++ ·)) := by
  induction elements with
  | nil => rfl
  | cons form rest ih => rw [sourceRest, List.map_cons, List.map_cons, String.join_cons, ih]

theorem Form.source_list (elements : List Form) :
    (list elements).source = "(" ++ String.intercalate " " (elements.map source) ++ ")" := by
  cases elements with
  | nil => rfl
  | cons first rest =>
      rw [source, List.map_cons, intercalate_blank, ← sourceRest_eq_join, ← String.append_assoc]

namespace Shell

inductive Span where
  | plain (text : String)
  | opening (style : Style)
  | closing (style : Style)
  deriving DecidableEq, Repr

namespace Span

/-- The text of a span with the codes that stand around a parenthesis. -/
def shown (codes : Style.Codes) : Span → String
  | .plain text => text
  | .opening style => String.ofList (codes.before style ++ '(' :: codes.behind style)
  | .closing style => String.ofList (codes.before style ++ ')' :: codes.behind style)

def bare : Span → String
  | .plain text => text
  | .opening _ => "("
  | .closing _ => ")"

/-- How many more lists are open behind a span than before it. -/
def weight : Span → Int
  | .plain _ => 0
  | .opening _ => 1
  | .closing _ => -1

end Span

mutual

def spans (depth : Nat) : Form → List Span
  | .atom value => [.plain value.source]
  | .list elements =>
      .opening (.ofDepth depth) ::
        (List.intercalate [.plain " "] (spansEach (depth + 1) elements) ++
          [.closing (.ofDepth depth)])

def spansEach (depth : Nat) : List Form → List (List Span)
  | [] => []
  | form :: rest => spans depth form :: spansEach depth rest

end

theorem spansEach_eq_map (depth : Nat) (elements : List Form) :
    spansEach depth elements = elements.map (spans depth) := by
  induction elements with
  | nil => rfl
  | cons form rest ih => rw [spansEach, ih, List.map_cons]

theorem coloredRest_eq_join (codes : Option Style.Codes) (depth : Nat) (elements : List Form) :
    coloredRest codes depth elements =
      String.join ((elements.map (colored codes depth)).map (" " ++ ·)) := by
  induction elements with
  | nil => rfl
  | cons form rest ih => rw [coloredRest, List.map_cons, List.map_cons, String.join_cons, ih]

theorem colored_list (codes : Option Style.Codes) (depth : Nat) (elements : List Form) :
    colored codes depth (.list elements) =
      parens codes depth (String.intercalate " " (elements.map (colored codes (depth + 1)))) := by
  cases elements with
  | nil => rfl
  | cons first rest => rw [colored, List.map_cons, intercalate_blank, ← coloredRest_eq_join]

/-- Without codes a form is echoed as its source text. -/
theorem colored_none (depth : Nat) (form : Form) : colored none depth form = form.source := by
  induction form using Form.induction generalizing depth with
  | atom value => rfl
  | list elements ih =>
      rw [colored_list, Form.source_list, List.map_congr_left fun form hform => ih form hform _]
      rfl

/-- Groups of spans with a blank between them have the joined texts of the
groups with a blank between them. -/
theorem join_intercalate {text : Span → String} (htext : text (.plain " ") = " ")
    (groups : List (List Span)) :
    String.join ((List.intercalate [.plain " "] groups).map text) =
      String.intercalate " " (groups.map fun group => String.join (group.map text)) := by
  induction groups with
  | nil => rfl
  | cons first rest ih =>
      cases rest with
      | nil => simp
      | cons second rest => simp [htext, ih, String.append_assoc]

/-- The text of a list is made of the texts of its elements, whatever text each
span has. -/
theorem join_spans_list {text : Span → String} (htext : text (.plain " ") = " ") (depth : Nat)
    (elements : List Form) :
    String.join ((spans depth (.list elements)).map text) =
      text (.opening (.ofDepth depth)) ++
        String.intercalate " "
          (elements.map fun form => String.join ((spans (depth + 1) form).map text)) ++
        text (.closing (.ofDepth depth)) := by
  rw [spans, List.map_cons, List.map_append, String.join_cons, String.join_append,
    join_intercalate htext, spansEach_eq_map, List.map_map, ← String.append_assoc]
  simp [Function.comp_def]

theorem Style.paint_opening (codes : Codes) (style : Style) :
    style.paint (some codes) "(" = (Span.opening style).shown codes := by
  simp [paint, Span.shown, reopen]

theorem Style.paint_closing (codes : Codes) (style : Style) :
    style.paint (some codes) ")" = (Span.closing style).shown codes := by
  simp [paint, Span.shown, reopen]

/-- Shown with their codes, the spans of a form are its echo. -/
theorem join_shown (codes : Style.Codes) (depth : Nat) (form : Form) :
    String.join ((spans depth form).map (Span.shown codes)) = colored (some codes) depth form := by
  induction form using Form.induction generalizing depth with
  | atom value => simp [spans, Span.shown, colored]
  | list elements ih =>
      rw [join_spans_list rfl, List.map_congr_left fun form hform => ih form hform _, colored_list,
        parens, Style.paint_opening, Style.paint_closing]

/-- Without their codes they are its source text. -/
theorem join_bare (depth : Nat) (form : Form) :
    String.join ((spans depth form).map Span.bare) = form.source := by
  induction form using Form.induction generalizing depth with
  | atom value => simp [spans, Span.bare, Form.source]
  | list elements ih =>
      rw [join_spans_list rfl, List.map_congr_left fun form hform => ih form hform _,
        Form.source_list]
      rfl

def level : List Span → Int
  | [] => 0
  | span :: rest => span.weight + level rest

@[simp] theorem level_nil : level [] = 0 := rfl

@[simp] theorem level_cons (span : Span) (rest : List Span) :
    level (span :: rest) = span.weight + level rest := rfl

@[simp] theorem level_append (first second : List Span) :
    level (first ++ second) = level first + level second := by
  induction first with
  | nil => simp
  | cons span rest ih => rw [List.cons_append, level_cons, level_cons, ih, Int.add_assoc]

/-- Spans in which every parenthesis has its partner. -/
structure Balanced (spans : List Span) : Prop where
  closed : level spans = 0
  sound : ∀ n, 0 ≤ level (spans.take n)

/-- The colour that a span must have in an echo from a depth on if it stands
inside a given number of lists. A closing parenthesis still stands inside the
list that it closes. -/
def Span.PaintedAt (depth : Nat) (level : Int) : Span → Prop
  | .plain _ => True
  | .opening style => ∃ k : Nat, level = k ∧ style = .ofDepth ((depth + k) % 6)
  | .closing style => ∃ k : Nat, level = k + 1 ∧ style = .ofDepth ((depth + k) % 6)

/-- Whether all spans have the colours that belong to an echo from a depth on,
if the first of them stands inside a given number of lists. -/
def PaintedFrom (depth : Nat) : (level : Int) → List Span → Prop
  | _, [] => True
  | level, span :: rest => span.PaintedAt depth level ∧ PaintedFrom depth (level + span.weight) rest

/-- The colours go on behind some spans at the level that these leave. -/
theorem PaintedFrom.append {depth : Nat} {start : Int} {first second : List Span}
    (hfirst : PaintedFrom depth start first)
    (hsecond : PaintedFrom depth (start + level first) second) :
    PaintedFrom depth start (first ++ second) := by
  induction first generalizing start with
  | nil => simpa using hsecond
  | cons span rest ih =>
      rw [level_cons, ← Int.add_assoc] at hsecond
      exact ⟨hfirst.1, ih hfirst.2 hsecond⟩

/-- Each span has the colour of the level at its own place. -/
theorem PaintedFrom.paintedAt {depth : Nat} {start : Int} {before after : List Span} {span : Span}
    (h : PaintedFrom depth start (before ++ span :: after)) :
    span.PaintedAt depth (start + level before) := by
  induction before generalizing start with
  | nil => simpa using h.1
  | cons first rest ih =>
      have hrest := ih h.2
      rwa [level_cons, ← Int.add_assoc]

/-- Spans of complete forms inside `k` lists, in the colours of an echo from a
depth on. -/
structure Completes (depth k : Nat) (spans : List Span) : Prop where
  closed : level spans = 0
  painted : PaintedFrom depth k spans

section

variable {depth k : Nat}

theorem completes_plain (text : String) : Completes depth k [.plain text] :=
  ⟨rfl, trivial, trivial⟩

theorem Completes.append {first second : List Span} (hfirst : Completes depth k first)
    (hsecond : Completes depth k second) : Completes depth k (first ++ second) := by
  refine ⟨?_, hfirst.painted.append ?_⟩
  · rw [level_append, hfirst.closed, hsecond.closed, Int.add_zero]
  · rw [hfirst.closed, Int.add_zero]
    exact hsecond.painted

/-- Blanks between complete forms do not change the level. -/
theorem completes_intercalate {groups : List (List Span)}
    (h : ∀ group ∈ groups, Completes depth k group) :
    Completes depth k (List.intercalate [.plain " "] groups) := by
  induction groups with
  | nil => exact ⟨rfl, trivial⟩
  | cons first rest ih =>
      obtain ⟨hfirst, hrest⟩ := List.forall_mem_cons.mp h
      cases rest with
      | nil => simpa using hfirst
      | cons second rest =>
          rw [List.intercalate_cons_cons]
          exact (hfirst.append (completes_plain " ")).append (ih hrest)

theorem Style.ofDepth_mod (depth : Nat) : ofDepth (depth % 6) = ofDepth depth := by
  rw [ofDepth, Nat.mod_mod, ofDepth]

/-- Parentheses of one colour around forms one level further in make a form. -/
theorem Completes.wrap {inner : List Span} (h : Completes depth (k + 1) inner) :
    Completes depth k
      (.opening (.ofDepth (depth + k)) :: (inner ++ [.closing (.ofDepth (depth + k))])) := by
  have hcolor : Style.ofDepth (depth + k) = .ofDepth ((depth + k) % 6) :=
    (Style.ofDepth_mod _).symm
  refine ⟨?_, ⟨k, rfl, hcolor⟩, h.painted.append ⟨⟨k, ?_, hcolor⟩, trivial⟩⟩
  · rw [level_cons, level_append, h.closed]
    rfl
  · rw [h.closed]
    exact Int.add_zero _

/-- A form that stands inside `k` lists is echoed in the colours of its place. -/
theorem completes_spans (form : Form) : Completes depth k (spans (depth + k) form) := by
  induction form using Form.induction generalizing k with
  | atom value => exact completes_plain _
  | list elements ih =>
      rw [spans, spansEach_eq_map]
      apply Completes.wrap
      apply completes_intercalate
      intro group hgroup
      obtain ⟨form, hform, rfl⟩ := List.mem_map.mp hgroup
      exact ih form hform

end

/-- Spans that close more lists than they open have a first parenthesis that
closes one which was open before them. -/
theorem exists_closing {spans : List Span} {k : Nat} (h : k + level spans < 0) :
    ∃ inside style rest, spans = inside ++ .closing style :: rest ∧ k + level inside = 0 ∧
      ∀ n, 0 ≤ k + level (inside.take n) := by
  induction spans generalizing k with
  | nil =>
      rw [level_nil] at h
      omega
  | cons span rest ih =>
      -- If this span is not the one that is looked for, it stands further right.
      have hfurther {j : Nat} (hj : (j : Int) = k + span.weight) :
          ∃ inside style after, span :: rest = inside ++ .closing style :: after ∧
            k + level inside = 0 ∧ ∀ n, 0 ≤ k + level (inside.take n) := by
        have hlevel : (j : Int) + level rest < 0 := by
          rw [level_cons] at h
          omega
        obtain ⟨inside, style, after, rfl, hclosed, hsound⟩ := ih hlevel
        refine ⟨span :: inside, style, after, rfl, ?_, ?_⟩
        · rw [level_cons]
          omega
        · intro n
          cases n with
          | zero => simp
          | succ n =>
              have hn := hsound n
              rw [List.take_succ_cons, level_cons]
              omega
      cases span with
      | plain text =>
          apply hfurther (j := k)
          rw [Span.weight, Int.add_zero]
      | opening style =>
          apply hfurther (j := k + 1)
          rw [Span.weight, Int.natCast_add, Int.natCast_one]
      | closing style =>
          cases k with
          | zero => exact ⟨[], style, rest, rfl, rfl, by simp⟩
          | succ k =>
              apply hfurther (j := k)
              rw [Span.weight]
              omega

/-- The colour of an opening parenthesis is that of the closing one which
matches it. -/
theorem PaintedFrom.opening_eq_closing {depth k : Nat} {before inside after : List Span}
    {first last : Style}
    (h : PaintedFrom depth k (before ++ .opening first :: (inside ++ .closing last :: after)))
    (hinside : level inside = 0) : first = last := by
  obtain ⟨i, hi, hfirst⟩ := h.paintedAt
  have hlast := h
  rw [← List.cons_append, ← List.append_assoc] at hlast
  obtain ⟨j, hj, hlast⟩ := hlast.paintedAt
  have hsame : i = j := by
    rw [level_append, level_cons, hinside, Span.weight] at hj
    omega
  rw [hfirst, hlast, hsame]

/-- The echo of a form shows its source text. Without codes it is that text. With
codes, whichever the terminal has, it is made of spans which are the echo with
them and the source text without them. Each parenthesis among the spans has a
colour that depends only on its level, counted from the given depth on and modulo
six. Every opening parenthesis has a closing one that matches it, and the two
have one colour. -/
theorem echo_shows_source (codes : Style.Codes) (form : Form) (depth : Nat) :
    colored none depth form = form.source ∧
      String.join ((spans depth form).map (Span.shown codes)) = colored (some codes) depth form ∧
      String.join ((spans depth form).map Span.bare) = form.source ∧
      (∀ before span after, spans depth form = before ++ span :: after →
        span.PaintedAt depth (level before)) ∧
      (∀ before first after, spans depth form = before ++ .opening first :: after →
        ∃ inside last rest, after = inside ++ .closing last :: rest ∧ Balanced inside) ∧
      (∀ before first inside last after,
        spans depth form = before ++ .opening first :: (inside ++ .closing last :: after) →
          Balanced inside → first = last) := by
  have hspans : Completes depth 0 (spans depth form) := completes_spans form
  refine ⟨colored_none depth form, join_shown codes depth form, join_bare depth form, ?_, ?_, ?_⟩
  · intro before span after hsplit
    have hspan := (hsplit ▸ hspans.painted).paintedAt
    simpa using hspan
  · intro before first after hsplit
    obtain ⟨k, hlevel, -⟩ := (hsplit ▸ hspans.painted).paintedAt
    have hclosed := hspans.closed
    rw [hsplit, level_append, level_cons, Span.weight] at hclosed
    have hnegative : ((0 : Nat) : Int) + level after < 0 := by omega
    obtain ⟨inside, last, rest, rfl, hinside, hsound⟩ := exists_closing hnegative
    exact ⟨inside, last, rest, rfl, by simpa using hinside, by simpa using hsound⟩
  · intro before first inside last after hsplit hinside
    exact (hsplit ▸ hspans.painted).opening_eq_closing hinside.closed

/-- Two lists inside a third, with a parenthesis in a text, at a depth from which
the colours start again, on a terminal that has every colour. -/
theorem echo_shows_source_nested :
    let form := Form.list [.list [.text "(", .symbol "a"], .list []]
    let inside := [.plain "\"(\"", .plain " ", .plain "a"]
    colored (some .ansi) 5 form =
        "\x1b[38;2;255;179;179m(\x1b[0m\x1b[38;2;0;255;204m(\x1b[0m\"(\" a" ++
        "\x1b[38;2;0;255;204m)\x1b[0m \x1b[38;2;0;255;204m(\x1b[0m" ++
        "\x1b[38;2;0;255;204m)\x1b[0m\x1b[38;2;255;179;179m)\x1b[0m" ∧
      ∃ outer first last after,
        spans 5 form = [.opening outer] ++ .opening first :: (inside ++ .closing last :: after) ∧
          Balanced inside ∧ first = last := by
  intro form inside
  have hsplit : spans 5 form =
      [.opening (.rgb 255 179 179)] ++ .opening (.rgb 0 255 204) ::
        (inside ++ .closing (.rgb 0 255 204) ::
          [.plain " ", .opening (.rgb 0 255 204), .closing (.rgb 0 255 204),
            .closing (.rgb 255 179 179)]) := by
    decide +kernel
  have hinside : Balanced inside := by
    refine ⟨rfl, fun n => ?_⟩
    match n with
    | 0 | 1 | 2 | n + 3 => simp [inside, Span.weight]
  obtain ⟨-, hshown, -, -, -, hmatch⟩ := echo_shows_source .ansi form 5
  refine ⟨?_, _, _, _, _, hsplit, hinside, hmatch _ _ _ _ _ hsplit hinside⟩
  rw [← hshown, hsplit]
  decide +kernel

end Shell

end FlatLisp
