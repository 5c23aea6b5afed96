/-!
# Lines of a text

A line ends at a line feed, which takes a carriage return before it along.  The empty piece after the last line feed
is no line.
-/

namespace RecordSearch.Text

/-- A line without the carriage return that ends it. -/
def dropReturn (line : List Char) : List Char :=
  if line.getLast? = some '\r' then line.dropLast else line

/-- The pieces between line feeds, the first of them preceded by `line` (reversed); only a piece that a line feed
closes loses its carriage return. -/
def linesAfter (line : List Char) : List Char → List (List Char)
  | [] => if line.isEmpty then [] else [line.reverse]
  | '\n' :: rest => dropReturn line.reverse :: linesAfter [] rest
  | c :: rest => linesAfter (c :: line) rest

/-- The lines of a text. -/
def lines (cs : List Char) : List (List Char) :=
  linesAfter [] cs

end RecordSearch.Text
