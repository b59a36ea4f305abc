/-!
# Lines

A text is cut into lines at its line feeds, and a line loses at most one carriage return at its
end. A text with `n` line feeds has `n + 1` lines, so the empty text has one.
-/

namespace IndentScript.Text

/-- A line without the carriage return at its end, if it has one there. -/
def dropReturn (line : List Char) : List Char :=
  if line.getLast? = some '\r' then line.dropLast else line

/-- The lines of a text, in order. -/
def lines (s : String) : List (List Char) :=
  (s.toList.splitOn '\n').map dropReturn

/-- The characters that separate tokens and indent lines: the space and the tab. -/
def isBlank (c : Char) : Bool :=
  c = ' ' || c = '\t'

/-- The number of blanks at the start of a line. -/
def indentWidth (line : List Char) : Nat :=
  (line.takeWhile isBlank).length

end IndentScript.Text
