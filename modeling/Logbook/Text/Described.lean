/-
Texts inside the description of a value.

Where a value is described for a reader, a text in it is put between double quotes and
everything that could be misread is escaped: quotes, backslashes, the usual controls by
their letters, and every other character that does not print by its code point.
-/
import Logbook.Text.Unprintable

set_option autoImplicit false

namespace Logbook.Text

/-- One character of a described text. -/
def describeChar (c : Char) : List Char :=
  if c = '\x00' then ['\\', '0']
  else if c = '\t' then ['\\', 't']
  else if c = '\r' then ['\\', 'r']
  else if c = '\n' then ['\\', 'n']
  else if c = '"' ∨ c = '\\' then ['\\', c]
  else if isUnprintable c then ['\\', 'u', '{'] ++ Nat.toDigits 16 c.toNat ++ ['}']
  else [c]

/-- **A text as a description shows it**, that is as a debug text has it. -/
def described (s : String) : String :=
  "\"" ++ String.ofList (s.toList.flatMap describeChar) ++ "\""

end Logbook.Text
