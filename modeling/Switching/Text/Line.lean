/-
Lines.

A line ends at a line feed, which may have one carriage return before it, and neither
is part of the line.  What follows the last line feed is a line only if it is not
empty, and a carriage return with no line feed behind it is an ordinary character.
-/

namespace Switching.Text

/-- Closes a line held last character first, leaving out one carriage return at its end. -/
def closeLine : List Char → List Char
  | '\r' :: line => line.reverse
  | line => line.reverse

/-- The lines of a text of which `line`, last character first, has been read already. -/
def linesAfter : List Char → List Char → List (List Char)
  | [], [] => []
  | line, [] => [line.reverse]
  | line, c :: rest =>
    if c = '\n' then closeLine line :: linesAfter [] rest
    else linesAfter (c :: line) rest

/-- The lines of a text, in order and without the characters that end them. -/
def lines (text : List Char) : List (List Char) :=
  linesAfter [] text

end Switching.Text
