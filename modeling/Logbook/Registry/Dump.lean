/-
Issue dumps.

A dump shows every message that is in memory, whatever its level. It starts from a copy
of the buffer and renders it with an emitter of its own, so it is a value by itself:
going on with it later needs nothing from the registry, and what happens to the registry
in the meantime does not reach it.
-/
import Logbook.Buffer.Retained
import Logbook.Emission.Emitter

set_option autoImplicit false

namespace Logbook

/-- **A dump, or what is left of it**: the `PendingDump` that is handed out while the drain
of its writer is outstanding. -/
structure Dump where
  buffer : Buffer
  emitter : Emitter

namespace Dump

/-- **The dump of a buffer in a style**: the copy that `emit_on_issue_notify` makes at the
level that every message passes, and an emitter that has not begun. -/
def ofBuffer (style : Style) (b : Buffer) : Dump :=
  ⟨b.copyRetained .all .empty, .new style⟩

@[simp] theorem ofBuffer_buffer (style : Style) (b : Buffer) :
    (ofBuffer style b).buffer = b.copyRetained .all .empty := rfl

@[simp] theorem ofBuffer_emitter (style : Style) (b : Buffer) :
    (ofBuffer style b).emitter = .new style := rfl

/-- The drain a dump waits for comes to an end. -/
def settle (d : Dump) (outcome : Signal) : Dump :=
  { d with emitter := d.emitter.settle outcome }

@[simp] theorem settle_buffer (d : Dump) (outcome : Signal) :
    (d.settle outcome).buffer = d.buffer := rfl

@[simp] theorem settle_emitter (d : Dump) (outcome : Signal) :
    (d.settle outcome).emitter = d.emitter.settle outcome := rfl

variable {σ : Type}

/-- **Writes a dump**, or goes on with it after a drain: `PendingDump::resume`. -/
def resume (k : Sink σ) (d : Dump) (s : σ) : Dump × σ × EmitStatus :=
  let r := d.emitter.resume k d.buffer s
  (⟨r.buffer, r.emitter⟩, r.state, r.status)

/-- **Writes a dump as far as it goes.** What is handed back is the rest of it while a drain
is outstanding. A dump that is done is not handed back. -/
def write (k : Sink σ) (d : Dump) (s : σ) : Option Dump × σ :=
  match d.resume k s with
  | (_, s, .done) => (none, s)
  | (d, s, .pending) => (some d, s)

/-- It is what a call of its emitter comes to. -/
theorem write_eq (k : Sink σ) (d : Dump) (s : σ) :
    let r := d.emitter.resume k d.buffer s
    d.write k s = (if r.status = .done then none else some ⟨r.buffer, r.emitter⟩, r.state) := by
  simp only [write, resume]
  cases (d.emitter.resume k d.buffer s).status <;> rfl

end Dump

end Logbook
