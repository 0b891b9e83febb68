/-
Destinations of finished text.

A flusher takes chunks of finished text, one after the other. It may fail, and then says
why. The flushers here keep what they are given, append it to a file that may hold
something already, or throw it away.
-/
import Logbook.Text.Lines

set_option autoImplicit false

namespace Logbook

/-- **What takes finished text**: the trait `Flush`. -/
class Flusher (φ : Type) where
  /-- `flush_one`. A flush that fails gives its reason. -/
  flush : φ → String → φ × Option String

/-- Text that was flushed and can be looked at: `StringFlusher`, with the `StringHandle` that reads
it. -/
structure Captured where
  contents : String
  deriving DecidableEq, Repr, Inhabited

namespace Captured

def empty : Captured := ⟨""⟩

/-- Takes the text out and leaves none. -/
def take (c : Captured) : String × Captured := (c.contents, empty)

/-- What was flushed, line by line and without their ends. -/
def lines (c : Captured) : List String := Text.lines c.contents

instance : Flusher Captured where
  flush c chunk := (⟨c.contents ++ chunk⟩, none)

end Captured

/-- A file that is appended to, by its content: `FileFlusher`. Its errors are those of the system
and not modelled. -/
structure AppendedFile where
  content : String
  deriving DecidableEq, Repr, Inhabited

namespace AppendedFile

/-- A file that is opened for appending keeps what it holds; one that does not exist is
made. -/
def openFor (existing : Option String) : AppendedFile := ⟨existing.getD ""⟩

instance : Flusher AppendedFile where
  flush file chunk := (⟨file.content ++ chunk⟩, none)

end AppendedFile

/-- A destination that keeps nothing: `NoopFlusher`. -/
structure Discarding where
  deriving DecidableEq, Repr, Inhabited

instance : Flusher Discarding where
  flush d _ := (d, none)

end Logbook
