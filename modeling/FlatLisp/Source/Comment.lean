/-!
Comments run from a semicolon to the end of its line. A semicolon inside a
quoted literal is text, and a quote inside a comment is not a quote. Literals
may span lines. One pass with three regions decides all of it: a character is
kept exactly when the region after it is not a comment, so a comment loses its
semicolon and its text while the newline that ends it stays.
-/

namespace FlatLisp.Source

/-- What the characters read so far leave open at one point of a text. -/
inductive Region where
  | code
  | literal
  | comment
  deriving DecidableEq, Repr

def Region.next : Region → Char → Region
  | .code, c => if c = '"' then .literal else if c = ';' then .comment else .code
  | .literal, c => if c = '"' then .code else .literal
  | .comment, c => if c = '\n' then .code else .comment

def Region.after (region : Region) (text : List Char) : Region :=
  text.foldl Region.next region

def stripFrom : Region → List Char → List Char
  | _, [] => []
  | region, c :: rest =>
      let next := region.next c
      if next = .comment then stripFrom next rest else c :: stripFrom next rest

/-- Drops each comment of a source text and keeps everything else, newlines
included. -/
def stripComments (source : String) : String :=
  String.ofList (stripFrom .code source.toList)

@[simp] theorem stripFrom_nil (region : Region) : stripFrom region [] = [] := rfl

/-- Stripping composes: the second part starts in the region in which the
first one ends. -/
theorem stripFrom_append (region : Region) (first second : List Char) :
    stripFrom region (first ++ second) =
      stripFrom region first ++ stripFrom (region.after first) second := by
  induction first generalizing region with
  | nil => rfl
  | cons c rest ih =>
      simp only [List.cons_append, stripFrom, Region.after, List.foldl_cons]
      split
      · exact ih _
      · rw [ih, List.cons_append, Region.after]

end FlatLisp.Source
