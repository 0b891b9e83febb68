/-
Writers.

A writer takes the text of messages, says when it wants to be drained, and is drained. A
drain is a short program: it may report diagnostics, it may call the registry it belongs
to and go on by the reply, and it ends with the writer as it is then and the signal that
answers the drain.

The trait `Writer` takes characters, texts, spans of texts and formatted values by operations
of their own. Each adds a text to what was written before, and here they are one operation.
-/
import Logbook.Registry.Call

set_option autoImplicit false

namespace Logbook

/-- **What a drain does**, with a result of type `α`. It is a value and not a function of the
registry, so that the same drain can be run against a registry and against nothing. -/
inductive Reentry (α : Type) where
  | done (a : α)
  | report (d : Diagnostic) (next : Reentry α)
  | call (c : Call) (next : Reply → Reentry α)

namespace Reentry

variable {α β σ : Type}

/-- One drain after the other, the second by the result of the first. -/
def bind : Reentry α → (α → Reentry β) → Reentry β
  | .done a, next => next a
  | .report d rest, next => .report d (rest.bind next)
  | .call c rest, next => .call c fun reply => (rest reply).bind next

/-- **Runs a drain** in surroundings that take reports and answer calls. -/
def run (report : σ → Diagnostic → σ) (answer : σ → Call → σ × Reply) : Reentry α → σ → σ × α
  | .done a, s => (s, a)
  | .report d next, s => run report answer next (report s d)
  | .call c next, s =>
    let (s, reply) := answer s c
    run report answer (next reply) s

end Reentry

/-- **A destination of messages**, `Writer`. -/
class Writer (ω : Type) where
  emit : ω → String → ω
  /-- `needs_to_drain`, which is asked after each message. -/
  wantsDrain : ω → Bool
  /-- What a drain does, given the writer it is asked of. -/
  drain : ω → Reentry (ω × Signal)

end Logbook
