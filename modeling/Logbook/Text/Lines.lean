/-
The lines of a text.

A line ends at a line feed, and a carriage return just before that line feed
belongs to the ending. Text after the last line feed is a line of its own, kept
as it is, if there is any.
-/

set_option autoImplicit false

namespace Logbook.Text

/-- A finished line, without the carriage return that belongs to its ending. -/
def endLine (reversed : List Char) : String :=
  match reversed with
  | '\r' :: rest => String.ofList rest.reverse
  | cs => String.ofList cs.reverse

/-- The lines of `cs`, given the characters of the line that is being read, last
one first, and the lines before it, last one first. -/
def linesFrom (current : List Char) (done : List String) : List Char → List String
  | [] => (if current.isEmpty then done else String.ofList current.reverse :: done).reverse
  | c :: cs =>
    if c = '\n' then linesFrom [] (endLine current :: done) cs
    else linesFrom (c :: current) done cs

/-- **The lines of a text**, as `StringHandle::lines` gives them. -/
def lines (s : String) : List String :=
  linesFrom [] [] s.toList

end Logbook.Text
