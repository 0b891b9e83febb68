/-
Quoted text: a text between double quotes, in which a quote and a backslash are
written with a backslash before them and every other character stands for
itself.
-/

set_option autoImplicit false

namespace Logbook.Text

/-- One character inside quotes. -/
def escape (c : Char) : List Char :=
  if c = '"' ∨ c = '\\' then ['\\', c] else [c]

/-- **A text between quotes**, its own quotes and backslashes escaped: `emit_quoted`. -/
def quoted (s : String) : String :=
  "\"" ++ String.ofList (s.toList.flatMap escape) ++ "\""

end Logbook.Text
