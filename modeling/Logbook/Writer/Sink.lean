/-
Where emitted text goes, and how a drain is waited for.

The emitter knows its surroundings through four operations: it emits text, it reports
diagnostics, it asks after each message whether to drain, and it drains. A drain is
answered by a signal. The signal may be complete when the drain returns, it may be
completed later, and it may be dropped without ever being completed, which ends the wait
as well.

A `DrainSignal` and its `DrainWatch` share one flag, and the flag counts its owners. All that
the emitter can see of the two is which of three states they are in, and that is a `Signal`.
-/
import Logbook.Diagnostic

set_option autoImplicit false

namespace Logbook

/-- **What has become of a drain.** -/
inductive Signal where
  /-- Somebody still holds the signal and may complete it. -/
  | outstanding
  | completed
  /-- Nobody holds it any more, and it was never completed. -/
  | dropped
  deriving DecidableEq, Repr, Inhabited

namespace Signal

/-- A signal that is still outstanding comes to the given end; any other stays. -/
def settle (s : Signal) (outcome : Signal) : Signal :=
  match s with
  | .outstanding => outcome
  | s => s

/-- `DrainWatch::is_complete`. -/
def isComplete (s : Signal) : Bool := s = .completed

/-- Whether the signal was given up, `DrainWatch::is_abandoned`. -/
def isAbandoned (s : Signal) : Bool := s = .dropped

end Signal

/-- The surroundings of an emitter, with states of type `σ`. -/
structure Sink (σ : Type) where
  emit : σ → String → σ
  report : σ → Diagnostic → σ
  wantsDrain : σ → Bool
  drain : σ → σ × Signal

/-- Reports diagnostics one after the other. -/
def Sink.reportAll {σ : Type} (k : Sink σ) (s : σ) (ds : List Diagnostic) : σ :=
  ds.foldl k.report s

end Logbook
