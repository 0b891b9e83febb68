/-
Calls from inside a drain.

While a registry drains its writer it is busy, and the drain may call it all the same. Most of
these calls come to nothing: a message is not recorded, a value of the context not changed, a
flush or a close has to be asked for again later, and a dump is not made. A format can be
registered, and that is the only thing that such a call leaves behind.

So calls of the other kinds cannot be told from a drain that does not make them. An interrupted
writer makes any of them, at any points of its drains, and `Interrupted.covering` says that its
drains cover those of the writer inside. From there the registry with an interrupted writer
echoes the registry without.
-/
import Logbook.Proofs.Registry.Echoes

set_option autoImplicit false

namespace Logbook

/-! ## Drains with interruptions -/

/-- **A call that leaves nothing behind** when it comes from inside a drain: any call that
registers no format. -/
def Interruption : Type := { c : Call // c.registers = false }

namespace Reentry

variable {α β : Type}

/-- Makes some calls first, and forgets what they are answered. -/
def after : List Interruption → Reentry α → Reentry α
  | [], p => p
  | c :: cs, p => .call c.val fun _ => after cs p

/-- **A drain with interruptions** before each of its steps, and before its end. The steps are
counted, and for each the plan says which calls are made. -/
def interrupted (plan : Nat → List Interruption) : Nat → Reentry α → Reentry α
  | n, .done a => after (plan n) (.done a)
  | n, .report d next => after (plan n) (.report d (interrupted plan (n + 1) next))
  | n, .call c next => after (plan n) (.call c fun reply => interrupted plan (n + 1) (next reply))

theorem Covers.after {f : α → β} {p : Reentry α} {q : Reentry β} (h : p.Covers f q)
    (cs : List Interruption) : (Reentry.after cs p).Covers f q := by
  induction cs with
  | nil => exact h
  | cons c cs ih => exact .extra c.val c.property fun _ => ih

theorem covers_interrupted (plan : Nat → List Interruption) (n : Nat) (p : Reentry α) :
    (p.interrupted plan n).Covers id p := by
  induction p generalizing n with
  | done a =>
    apply Covers.after
    exact .done a
  | report d next ih =>
    apply Covers.after
    exact .report d (ih (n + 1))
  | call c next ih =>
    apply Covers.after
    exact .call c fun reply => ih reply (n + 1)

end Reentry

/-! ## Interrupted writers -/

/-- **A writer whose drains make calls** by a plan: first by the number of the drain, then by the
step of it. -/
structure Interrupted (ω : Type) where
  inner : ω
  plan : Nat → Nat → List Interruption
  drains : Nat

instance {ω : Type} [Writer ω] : Writer (Interrupted ω) where
  emit w text := { w with inner := Writer.emit w.inner text }
  wantsDrain w := Writer.wantsDrain w.inner
  drain w := ((Writer.drain w.inner).interrupted (w.plan w.drains) 0).bind fun p =>
    .done (⟨p.1, w.plan, w.drains + 1⟩, p.2)

/-- **The writer inside** is what is seen of an interrupted writer. -/
def Interrupted.covering (ω : Type) [Writer ω] : Covering (Interrupted ω) ω where
  view := inner
  emit _ _ := rfl
  wantsDrain _ := rfl
  drain w :=
    (Reentry.covers_interrupted (w.plan w.drains) 0 (Writer.drain w.inner)).bind_done
      fun _ => rfl

/-- **A writer with a record of its chunks**, each the text from one drain to the next. -/
structure Chunked (ω : Type) where
  inner : ω
  chunks : List String
  loose : String

instance {ω : Type} [Writer ω] : Writer (Chunked ω) where
  emit w text := { w with inner := Writer.emit w.inner text, loose := w.loose ++ text }
  wantsDrain w := Writer.wantsDrain w.inner
  drain w := (Writer.drain w.inner).bind fun p => .done (⟨p.1, w.chunks ++ [w.loose], ""⟩, p.2)

namespace Registry

variable {ω : Type}

/-- A registry whose writer is interrupted from now on. -/
def interrupted (r : Registry ω) (plan : Nat → Nat → List Interruption) :
    Registry (Interrupted ω) :=
  r.withWriter ⟨r.writer, plan, 0⟩

/-- A registry with the writer inside its writer, and with nothing to report. -/
def calm (r : Registry (Interrupted ω)) : Registry ω := (r.withWriter r.writer.inner).quiet

theorem echoes_interrupted [Writer ω] (r : Registry ω) (plan : Nat → Nat → List Interruption) :
    (r.interrupted plan).Echoes (.exact r.writeLevel) (Interrupted.covering ω).view r :=
  .intro (r.interrupted plan) (r.hot, r.clock) r.reports rfl rfl

/-- What is called in a drain is answered as any call to a busy registry is. -/
theorem call_of_busy [Writer ω] {r : Registry ω} (hbusy : r.busy = true) (c : Call) :
    r.call c = r.answer c := by
  cases c with
  | flush =>
    simp only [call, flush]
    rw [if_pos hbusy]
    rfl
  | close =>
    simp only [call, close]
    rw [if_pos hbusy]
    rfl
  | _ => rfl

/-- **Calls from inside a drain disturb nothing.**

* A registry that is busy is not changed by any call that registers no format, but for what it
  reports. A flush or a close is answered that a drain is outstanding, and no dump is made.
* Take a registry in any state, and let the drains of its writer make any such calls, as many as
  they like and at any of their steps. Whatever the registry is asked to do then, a flush or a
  close or anything else, it is left in the same state as without those calls, with the same
  reply, and its writer was handed the same chunks. -/
theorem undisturbed_by_drains [Writer ω] (r : Registry (Chunked ω))
    (plan : Nat → Nat → List Interruption) :
    (∀ s : Registry (Interrupted (Chunked ω)), s.busy = true →
      (∀ c : Interruption, s.call c.val = s.answer c.val ∧ (s.call c.val).1.quiet = s.quiet) ∧
      (s.call .flush).2 = .flushed .pending ∧ (s.call .close).2 = .flushed .pending ∧
      ∀ logger, (s.call (.dump logger)).2 = .dump none) ∧
    ∀ c : Call,
      let outcome := (r.interrupted plan).call c
      outcome.1.calm = (r.call c).1.quiet ∧ outcome.2 = (r.call c).2 ∧
      outcome.1.writer.inner.chunks = (r.call c).1.writer.chunks ∧
      outcome.1.writer.inner.loose = (r.call c).1.writer.loose := by
  refine ⟨fun s hbusy => ⟨fun c => ?_, ?_, ?_, fun logger => ?_⟩, fun c => ?_⟩
  · rw [call_of_busy hbusy]
    exact ⟨rfl, quiet_answer hbusy c.property⟩
  · rw [call_of_busy hbusy]
    rfl
  · rw [call_of_busy hbusy]
    rfl
  · simp only [call_of_busy hbusy, answer, dump]
    rw [if_pos hbusy]
  · obtain ⟨hecho, hreply⟩ := (echoes_interrupted r plan).call c
    refine ⟨hecho.quiet_eq, hreply (.inr (.inr rfl)), ?_, ?_⟩
    · rw [hecho.writer]
      rfl
    · rw [hecho.writer]
      rfl

end Registry

end Logbook
