/-
Emitting a buffer.

An emitter walks through a buffer and renders slot after slot. When a message is
complete it asks whether to drain, and at the end of the buffer it drains once more. A
drain may be left outstanding: then the emitter stops, keeping its place, and goes on
when it is called again and the drain has come to an end. After the last drain the
buffer is cleared, the emitter is idle again, and the callback that was left with it, if
any, is called.

Each slot is one step further in the buffer, so the slots after the cursor are what the
walk counts down.

This is `Emitter`, whose loop in `resume` is `walk` with what follows each drain. A run only
ever rests in a drain: the state `Running` lasts no longer than a call and has no phase here.
-/
import Logbook.Buffer.Cursor
import Logbook.Emission.Frame
import Logbook.Writer.Sink

set_option autoImplicit false

namespace Logbook

/-- What a drain holds up: `AfterDrain`. -/
inductive AfterDrain where
  /-- The next message. -/
  | proceed
  /-- The end of the run. -/
  | conclude
  deriving DecidableEq, Repr

/-- Whether a run is under way, which between calls means that it waits for a drain: `State`. The
signal says what has become of that drain since. -/
inductive Phase where
  | idle
  | draining (signal : Signal) (next : AfterDrain)
  deriving DecidableEq, Repr

/-- How a call ends. -/
inductive EmitStatus where
  /-- Everything was rendered and drained, and the buffer is cleared. -/
  | done
  /-- A drain is outstanding. -/
  | pending
  deriving DecidableEq, Repr, Inhabited

/-- **An emitter between two calls**: how it writes, and where it stands in its buffer. The buffer
is given to every call and has to be the same one until the run is done. -/
structure Emitter where
  style : Style
  frames : List Frame
  /-- Where the next slot is looked for. -/
  cursor : Cursor
  phase : Phase
  /-- The name of the callback that the end of the run calls. -/
  callback : Option String
  deriving DecidableEq

/-- What a call leaves: the emitter, its buffer and the surroundings, how the call ended, and the
callback that it called. -/
structure Resumed (σ : Type) where
  emitter : Emitter
  buffer : Buffer
  state : σ
  status : EmitStatus
  called : Option String

namespace Emitter

/-- `Emitter::new`. -/
def new (style : Style) : Emitter :=
  { style := style, frames := [], cursor := .start, phase := .idle, callback := none }

/-- Whether no run is under way, `Emitter::is_idle`. -/
def isIdle (e : Emitter) : Bool := e.phase = .idle

/-- Leaves a callback for the end of the run, in place of any other: `Emitter::on_complete`. -/
def onComplete (e : Emitter) (name : String) : Emitter := { e with callback := some name }

/-- **An outstanding drain comes to an end**, completed or dropped. The emitter learns that through
its `DrainWatch` and takes no part in it. -/
def settle (e : Emitter) (outcome : Signal) : Emitter :=
  match e.phase with
  | .draining signal next => { e with phase := .draining (signal.settle outcome) next }
  | .idle => e

variable {σ : Type}

/-- The end of a run, `finish`. The callback is called and forgotten. -/
def finish (e : Emitter) (b : Buffer) (s : σ) : Resumed σ :=
  { emitter := { e with frames := [], cursor := .start, phase := .idle, callback := none }
    -- as it is now, with what was appended since the walk met its end
    buffer := b.clear
    state := s
    status := .done
    called := e.callback }

/-- A call that ends with a drain outstanding. -/
def suspend (e : Emitter) (b : Buffer) (s : σ) (next : AfterDrain) : Resumed σ :=
  { emitter := { e with phase := .draining .outstanding next }
    buffer := b
    state := s
    status := .pending
    called := none }

/-- The last drain of a run, and what follows by the signal it is answered with. It is asked for
whether or not the writer wants one. -/
def conclude (k : Sink σ) (e : Emitter) (b : Buffer) (s : σ) : Resumed σ :=
  -- a buffer that ends inside a message leaves its frames, and they go before the drain
  let s := if e.frames.isEmpty then s else k.report s (.endedInsideMessage e.frames.length)
  let e := { e with frames := [] }
  match k.drain s with
  | (s, .outstanding) => e.suspend b s .conclude
  | (s, .completed) => e.finish b s
  | (s, .dropped) => e.finish b (k.report s .drainDropped)

/-- The emitter after one slot, what the step came to, and the surroundings. -/
def advance (k : Sink σ) (e : Emitter) (at' : Cursor) (slot : Slot) (s : σ) :
    Emitter × Bool × σ :=
  let step := Frame.step e.style e.frames slot
  ({ e with frames := step.frames, cursor := at'.next }, step.ended,
    k.reportAll (k.emit s step.text) step.reports)

/-- **Renders from the cursor on** until a drain is outstanding or all is done. The writer is asked
whether it wants a drain after the end of a message and not within one, so a message is never
cut by a drain. -/
def walk (k : Sink σ) (e : Emitter) (b : Buffer) (s : σ) : Resumed σ :=
  match _h : b.slotFrom e.cursor with
  | none => e.conclude k b s
  | some (at', slot) =>
    let next := e.advance k at' slot s
    if next.2.1 && k.wantsDrain next.2.2 then
      match k.drain next.2.2 with
      | (s, .outstanding) => next.1.suspend b s .proceed
      -- completed within the drain, so that the call does not stop
      | (s, .completed) => next.1.walk k b s
      | (s, .dropped) => next.1.walk k b (k.report s .drainDropped)
    else
      next.1.walk k b next.2.2
termination_by (b.after e.cursor).length
decreasing_by
  all_goals
    have := Buffer.after_eq_cons_of_slotFrom _h
    simp only [advance, this, List.length_cons]
    omega

/-- Goes on after a drain that has come to an end. After the last one nothing more is looked for
in the buffer. -/
def goOn (k : Sink σ) (e : Emitter) (b : Buffer) (s : σ) : AfterDrain → Resumed σ
  | .proceed => e.walk k b s
  | .conclude => e.finish b s

/-- **Renders a buffer from where the last call stopped**, `Emitter::resume`. While a drain is
outstanding nothing happens. A drain that was dropped is reported, once, and counts as ended. -/
def resume (k : Sink σ) (e : Emitter) (b : Buffer) (s : σ) : Resumed σ :=
  match e.phase with
  | .idle => e.walk k b s
  | .draining .outstanding next => e.suspend b s next
  | .draining .completed next => e.goOn k b s next
  | .draining .dropped next => e.goOn k b (k.report s .drainDropped) next

/-! ## What a finished call leaves behind -/

theorem conclude_of_done {k : Sink σ} {e : Emitter} {b : Buffer} {s : σ}
    (h : (e.conclude k b s).status = .done) :
    (e.conclude k b s).buffer = b.clear ∧ (e.conclude k b s).emitter.isIdle = true := by
  unfold conclude at h ⊢
  simp only at h ⊢
  split at h <;> simp_all [suspend, finish, isIdle]

theorem walk_of_done {k : Sink σ} {e : Emitter} {b : Buffer} {s : σ}
    (h : (e.walk k b s).status = .done) :
    (e.walk k b s).buffer = b.clear ∧ (e.walk k b s).emitter.isIdle = true := by
  fun_induction walk k e b s with
  | case1 e s hfrom => exact conclude_of_done h
  | case2 e s at' slot hfrom next hwants s' hdrain => simp [suspend] at h
  | case3 e s at' slot hfrom next hwants s' hdrain ih => exact ih h
  | case4 e s at' slot hfrom next hwants s' hdrain ih => exact ih h
  | case5 e s at' slot hfrom next hwants ih => exact ih h

theorem goOn_of_done {k : Sink σ} {e : Emitter} {b : Buffer} {s : σ} {next : AfterDrain}
    (h : (e.goOn k b s next).status = .done) :
    (e.goOn k b s next).buffer = b.clear ∧ (e.goOn k b s next).emitter.isIdle = true := by
  cases next with
  | proceed => exact walk_of_done h
  | conclude => simp [goOn, finish, isIdle]

/-- **A call that is done** has cleared the buffer, and the emitter is idle. -/
theorem resume_of_done {k : Sink σ} {e : Emitter} {b : Buffer} {s : σ}
    (h : (e.resume k b s).status = .done) :
    (e.resume k b s).buffer = b.clear ∧ (e.resume k b s).emitter.isIdle = true := by
  unfold resume at h ⊢
  split at h
  · exact walk_of_done h
  · simp [suspend] at h
  · exact goOn_of_done h
  · exact goOn_of_done h

/-! ## What the surroundings keep

What every operation of the surroundings keeps is kept by a call: by each step, by the last
drain, and by induction on the walk by all of them together. -/

section Keeps

variable {k : Sink σ} {P : σ → Prop} (hemit : ∀ s text, P s → P (k.emit s text))
  (hreport : ∀ s d, P s → P (k.report s d)) (hdrain : ∀ s, P s → P (k.drain s).1)

include hreport

theorem reportAll_keeps (ds : List Diagnostic) {s : σ} (h : P s) : P (k.reportAll s ds) := by
  induction ds generalizing s with
  | nil => exact h
  | cons d ds ih => exact ih (hreport s d h)

include hemit in
theorem advance_keeps (e : Emitter) (at' : Cursor) (slot : Slot) {s : σ} (h : P s) :
    P (e.advance k at' slot s).2.2 :=
  reportAll_keeps hreport _ (hemit s _ h)

include hdrain

theorem conclude_keeps (e : Emitter) (b : Buffer) {s : σ} (h : P s) :
    P (e.conclude k b s).state := by
  have hended : P (if e.frames.isEmpty then s
      else k.report s (.endedInsideMessage e.frames.length)) := by
    split
    · exact h
    · exact hreport _ _ h
  have hdrained := hdrain _ hended
  unfold conclude
  simp only
  split <;> rename_i hd <;> rw [hd] at hdrained
  · exact hdrained
  · exact hdrained
  · exact hreport _ _ hdrained

include hemit

theorem walk_keeps (e : Emitter) (b : Buffer) {s : σ} (h : P s) : P (e.walk k b s).state := by
  fun_induction walk k e b s with
  | case1 e s hfrom => exact conclude_keeps hreport hdrain e b h
  | case2 e s at' slot hfrom next hwants s' hd =>
    have hnext := hdrain _ (advance_keeps hemit hreport e at' slot h)
    rwa [hd] at hnext
  | case3 e s at' slot hfrom next hwants s' hd ih =>
    have hnext := hdrain _ (advance_keeps hemit hreport e at' slot h)
    rw [hd] at hnext
    exact ih hnext
  | case4 e s at' slot hfrom next hwants s' hd ih =>
    have hnext := hdrain _ (advance_keeps hemit hreport e at' slot h)
    rw [hd] at hnext
    exact ih (hreport _ _ hnext)
  | case5 e s at' slot hfrom next hwants ih => exact ih (advance_keeps hemit hreport e at' slot h)

theorem goOn_keeps (e : Emitter) (b : Buffer) (next : AfterDrain) {s : σ} (h : P s) :
    P (e.goOn k b s next).state := by
  cases next with
  | proceed => exact walk_keeps hemit hreport hdrain e b h
  | conclude => exact h

/-- **What every operation of the surroundings keeps, a call keeps.** -/
theorem resume_keeps (e : Emitter) (b : Buffer) (s : σ) (h : P s) :
    P (e.resume k b s).state := by
  unfold resume
  split
  · exact walk_keeps hemit hreport hdrain e b h
  · exact h
  · exact goOn_keeps hemit hreport hdrain e b _ h
  · exact goOn_keeps hemit hreport hdrain e b _ (hreport s _ h)

end Keeps

end Emitter

end Logbook
