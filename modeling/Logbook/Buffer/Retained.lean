/-
Keeping the messages that pass a level.

The slots of a buffer are gone through once. A message starts with its format, and the
slot after that has to be a level that passes; else everything up to the end of the
message is dropped. What is kept is kept whole and in order, and so are slots outside
any message.

Dropping looks for an end and for nothing else. A message that has none takes the next
one with it, although that one may pass: a format that comes while dropping starts nothing.
-/
import Logbook.Buffer.Basic

set_option autoImplicit false

namespace Logbook

/-- Whether a message goes on with a level that passes, given the slot after its format. A format
at the end of the buffer, or one with something else after it, has no level to pass with. -/
def Level.admits (threshold : Level) : Option Slot → Bool
  | some (.level l) => l.passes threshold
  | _ => false

/-- **The slots that are kept.** While `dropping` everything goes up to the end of a
message, that end included; this is `scanning_for_end`. -/
def retained (threshold : Level) : (dropping : Bool) → List Slot → List Slot
  | _, [] => []
  | true, .finish :: rest => retained threshold false rest
  -- also a format, which starts no message here
  | true, _ :: rest => retained threshold true rest
  | false, .format f :: rest =>
    if threshold.admits rest.head? then .format f :: retained threshold false rest
    else retained threshold true rest
  | false, s :: rest => s :: retained threshold false rest

namespace Buffer

/-- **Appends to `target` the messages of a buffer that pass a level**,
`TaggedBuffer::copy_retained`. They are appended slot by slot, so the blocks of the copy are
not those of the original. -/
def copyRetained (b : Buffer) (threshold : Level) (target : Buffer) : Buffer :=
  target.appendAll (retained threshold false b.slots)

/-- Moves to `target` the messages of a buffer that pass a level; the other messages
are dropped: `TaggedBuffer::process_for_write`. The result is the first buffer, emptied, and the
target. -/
def moveRetained (b : Buffer) (threshold : Level) (target : Buffer) : Buffer × Buffer :=
  (b.clear, b.copyRetained threshold target)

end Buffer

end Logbook
