import FlatLisp.Text.Blank

/-!
Completion of the word at the cursor. Blanks, parentheses and quotes delimit
words. The cursor is given in bytes: delimiters that start before it end the
word on its left, and the first one that does not ends the word on its right.
The cursor may lie inside a character or past the end of the line.
-/

namespace FlatLisp.Shell

def isDelimiter (c : Char) : Bool :=
  Text.isBlank c || c == '(' || c == ')' || c == '"'

/-- A line cut in three: the word at the cursor and what stands around it. -/
structure WordAt where
  before : String
  word : String
  after : String
  deriving DecidableEq, Repr

/-- Cuts the rest of a line of which some has been read: the word so far, and
what stands before it. -/
def cutFrom (cursor : Nat) (before word : String) : List Char → WordAt
  | [] => ⟨before, word, ""⟩
  | c :: rest =>
      if isDelimiter c then
        if before.utf8ByteSize + word.utf8ByteSize < cursor then
          cutFrom cursor ((before ++ word).push c) "" rest
        else ⟨before, word, String.ofList (c :: rest)⟩
      else cutFrom cursor before (word.push c) rest

def cut (line : String) (cursor : Nat) : WordAt :=
  cutFrom cursor "" "" line.toList

def WordAt.start (cut : WordAt) : Nat := cut.before.utf8ByteSize

def WordAt.stop (cut : WordAt) : Nat := cut.start + cut.word.utf8ByteSize

def candidates (symbols : List String) (word : String) : List String :=
  symbols.filter fun symbol => word.toList.isPrefixOf symbol.toList

/-- Where the word at the cursor starts, and what may take its place. -/
def complete (symbols : List String) (line : String) (cursor : Nat) : Nat × List String :=
  let found := cut line cursor
  (found.start, candidates symbols found.word)

end FlatLisp.Shell
