/-
Writing what a registry has recorded.

A flush moves the messages that pass the write level from the hot buffer to the pending
one and renders that to the writer. When the writer leaves a drain outstanding the run is
suspended, and a flush then goes on with it instead of starting another one, so messages
that come meanwhile wait in the hot buffer. A close records no more and flushes until
nothing is left: a run that was suspended may leave newer messages for another run.

While a run is going on the registry is busy. The calls that a drain makes are answered by
the registry itself, and a busy registry keeps its buffers whatever it is asked.

A flush that finishes a run leaves less to do, which is why a close comes to an end. What
there is to do is measured by `backlog`: the slots of both buffers, and one for a run
that is under way.
-/
import Logbook.Registry.Basic

set_option autoImplicit false

namespace Logbook

namespace Registry

variable {ω : Type}

/-- What there is to do for a close. -/
def backlog (r : Registry ω) : Nat :=
  r.hot.size + r.pending.size + if r.emitter.isIdle then 0 else 1

/-- Between runs with nothing pending, what there is to do stands in the hot buffer. -/
theorem backlog_of_done {r : Registry ω} (hp : r.pending.slots = []) (he : r.emitter.isIdle = true) :
    r.backlog = r.hot.size := by
  simp [backlog, he, Buffer.size_eq_length_slots, hp]

variable [Writer ω]

/-- **A registry as the surroundings of its own emission.** Text goes to its writer, and
what the writer asks during a drain is answered by the registry, which is busy then. -/
def sink : Sink (Registry ω) where
  emit r text := { r with writer := Writer.emit r.writer text }
  report := report
  wantsDrain r := Writer.wantsDrain r.writer
  drain r :=
    let (r, writer, signal) := (Writer.drain r.writer).run report answer r
    -- no call of the drain has touched the writer, which is put back as the drain leaves it
    ({ r with writer := writer }, signal)

/-- Moves what is to be written to the pending buffer, between runs only. -/
def refill (r : Registry ω) : Registry ω :=
  if r.emitter.isIdle then
    let (hot, pending) := r.hot.moveRetained r.writeLevel r.pending
    { r with hot := hot, pending := pending }
  else
    r

/-- Starts a run or goes on with it. The registry is busy meanwhile. -/
def run (r : Registry ω) : Registry ω × FlushResult :=
  let resumed := r.emitter.resume sink r.pending { r with busy := true }
  ({ resumed.state with busy := false, emitter := resumed.emitter, pending := resumed.buffer },
    match resumed.status with
    | .done => .done
    | .pending => .pending)

/-- **Writes what was recorded so far** and passes the write level, or goes on with the
run that is under way: `flush_shared`. Between runs what does not pass is dropped even
where nothing is left to write, since the hot buffer is cleared first. -/
def flush (r : Registry ω) : Registry ω × FlushResult :=
  if r.busy then
    (r, .pending)
  else
    let r := r.refill
    -- a run that is under way is gone on with even if it has nothing left to render
    if r.emitter.isIdle && r.pending.isEmpty then (r, .empty) else r.run

/-! ## A finished run leaves less to do -/

/-- A run leaves the hot buffer as it is. -/
theorem run_hot (r : Registry ω) : r.run.1.hot = r.hot := by
  refine (Emitter.resume_keeps (P := fun s : Registry ω => s.busy = true ∧ s.hot = r.hot)
    ?_ ?_ ?_ r.emitter r.pending { r with busy := true } ⟨rfl, rfl⟩).2
  · exact fun _ _ h => h
  · exact fun _ _ h => h
  · intro s h
    obtain ⟨hb, hh⟩ := drain_keeps (Writer.drain s.writer) h.1
    exact ⟨hb, hh.trans h.2⟩

/-- A run that is done leaves no message and no run behind. -/
theorem run_of_done {r : Registry ω} (h : r.run.2 = .done) :
    r.run.1.pending.slots = [] ∧ r.run.1.emitter.isIdle = true := by
  have hdone : (r.emitter.resume sink r.pending { r with busy := true }).status = .done := by
    simp only [run] at h
    split at h
    · assumption
    · simp at h
  obtain ⟨hbuffer, hidle⟩ := Emitter.resume_of_done hdone
  refine ⟨?_, hidle⟩
  show (Emitter.resume sink r.emitter r.pending { r with busy := true }).buffer.slots = []
  rw [hbuffer, Buffer.slots_clear]

/-- **A flush that is done leaves less to do.** -/
theorem flush_backlog_lt {r : Registry ω} (h : r.flush.2 = .done) :
    r.flush.1.backlog < r.backlog := by
  unfold flush at h ⊢
  by_cases hbusy : r.busy = true
  · simp [hbusy] at h
  · simp only [hbusy, Bool.false_eq_true, ↓reduceIte] at h ⊢
    by_cases hempty : (r.refill.emitter.isIdle && r.refill.pending.isEmpty) = true
    · simp [hempty] at h
    · simp only [hempty, Bool.false_eq_true, ↓reduceIte] at h ⊢
      obtain ⟨hp, he⟩ := run_of_done h
      rw [backlog_of_done hp he, run_hot]
      by_cases hidle : r.emitter.isIdle = true
      · have hhot : r.refill.hot.size = 0 := by
          simp [refill, hidle, Buffer.moveRetained, Buffer.size_eq_length_slots,
            Buffer.slots_clear]
        have hpos : 0 < r.hot.size + r.pending.size := by
          refine Nat.pos_of_ne_zero fun hzero => hempty ?_
          simp only [Buffer.size_eq_length_slots, Nat.add_eq_zero_iff, List.length_eq_zero_iff]
            at hzero
          have hpending : r.refill.pending = r.pending := by
            simp [refill, hidle, Buffer.moveRetained, Buffer.copyRetained, hzero.1, retained,
              Buffer.appendAll]
          have hsame : r.refill.emitter = r.emitter := by simp [refill, hidle]
          rw [hpending, hsame, hidle, (Buffer.isEmpty_iff_slots _).mpr hzero.2]
          rfl
        unfold backlog
        omega
      · have hsame : r.refill = r := by simp [refill, hidle]
        rw [hsame]
        simp only [backlog, hidle]
        simp only [Bool.false_eq_true, ↓reduceIte]
        omega

/-! ## Closing -/

/-- Flushes until nothing is left to write or a drain is outstanding: the loop of `close`. -/
def flushAll (r : Registry ω) : Registry ω × FlushResult :=
  match _h : r.flush with
  | (r, .done) => r.flushAll
  | (r, .empty) => (r, .done)
  | (r, .pending) => (r, .pending)
termination_by r.backlog
decreasing_by
  have hlt := flush_backlog_lt (congrArg Prod.snd _h)
  rwa [_h] at hlt

theorem flushAll_eq (r : Registry ω) :
    r.flushAll = match r.flush with
      | (r', .done) => r'.flushAll
      | (r', .empty) => (r', .done)
      | (r', .pending) => (r', .pending) := by
  rw [flushAll]
  split <;> rename_i heq <;> rw [heq]

/-- **Stops recording and writes what is left**, `LoggerRegistry::close`. From inside a
drain it does nothing. Where a drain is left outstanding it has to be asked for again, and the
registry is closed from the first time on. -/
def close (r : Registry ω) : Registry ω × FlushResult :=
  if r.busy then (r, .pending) else { r with closed := true }.flushAll

/-- **Any call**, to a registry that may be free. -/
def call (r : Registry ω) : Call → Registry ω × Reply
  | .flush =>
    let (r, result) := r.flush
    (r, .flushed result)
  | .close =>
    let (r, result) := r.close
    (r, .flushed result)
  | c => r.answer c

end Registry

end Logbook
