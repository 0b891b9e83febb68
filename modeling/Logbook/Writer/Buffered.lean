/-
The default writer.

Text is gathered until there are enough bytes of it, and a drain hands it to a flusher as
one chunk. Nothing is handed over when there is no text. A flush that fails is reported
and its chunk is lost; the drain is complete in any case.
-/
import Logbook.Writer.Basic
import Logbook.Writer.Flusher

set_option autoImplicit false

namespace Logbook

/-- Text in front of a flusher: `BufferedWriter`. -/
structure Buffered (φ : Type) where
  /-- Text that was not flushed yet. -/
  held : String
  /-- Bytes from which on a drain is wanted. -/
  threshold : Nat
  flusher : φ

namespace Buffered

variable {φ : Type}

/-- Bytes that are gathered if nothing else is asked for: `DEFAULT_DRAIN_THRESHOLD`. -/
def defaultThreshold : Nat := 4096

/-- `BufferedWriter::with_threshold`. -/
def new (flusher : φ) (threshold : Nat) : Buffered φ := ⟨"", threshold, flusher⟩

/-- **Hands the text over**, if there is any, and drops it. -/
def drain [Flusher φ] (w : Buffered φ) : Reentry (Buffered φ × Signal) :=
  if w.held.isEmpty then
    .done (w, .completed)
  else
    match Flusher.flush w.flusher w.held with
    | (flusher, none) => .done ({ w with held := "", flusher := flusher }, .completed)
    | (flusher, some error) =>
      -- the text is dropped all the same, so nothing is ever handed over twice
      .report (.flushFailed error)
        (.done ({ w with held := "", flusher := flusher }, .completed))

instance [Flusher φ] : Writer (Buffered φ) where
  emit w text := { w with held := w.held ++ text }
  wantsDrain w := w.threshold ≤ w.held.utf8ByteSize
  drain := drain

end Buffered

end Logbook
