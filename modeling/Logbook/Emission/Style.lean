/-
The text around a message.

Before its own text a message shows its level and the name of its format, and after it
a terminator. A style says which of the two are shown and what the terminator is.
-/
import Logbook.Level

set_option autoImplicit false

namespace Logbook

/-- What is written around each message: `Layout` of the emitter. -/
structure Style where
  showLevel : Bool
  showName : Bool
  terminator : String
  deriving DecidableEq, Repr

namespace Style

/-- Level and name, and a line of its own for each message: `Layout::default`. -/
def standard : Style := ⟨true, true, "\n"⟩

/-- The text of the message and a line feed: `Layout::bare`. -/
def bare : Style := ⟨false, false, "\n"⟩

instance : Inhabited Style := ⟨standard⟩

/-- What stands before a message, `write_preamble`. A name is written as it is, brackets and
angles included. -/
def preamble (style : Style) (name : String) (level : Level) : String :=
  (if style.showLevel then "[" ++ level.label ++ "] " else "")
    ++ (if style.showName then name ++ "> " else "")

end Style

end Logbook
