/-
What a flush reports.

A flush has a run to make unless nothing is under way and nothing passes. It is the run that
is under way, or else a new one of what passes in the hot buffer. The report says how far that
run has come: it is done when the emitter is idle afterwards, and pending when a drain is
outstanding. A run prints its messages in order and the hot buffer is not part of it, so from
the report alone it is known what was handed over and what is still in memory.

What was handed over is read off the record of the writer, which may itself be any.
-/
import Logbook.Proofs.Registry.Close

set_option autoImplicit false

namespace Logbook

namespace Registry

variable {ω : Type} [Writer ω] {L : Ledger ω} {style : Style}

/-! ## How far a run comes -/

/-- A run is done when the emitter is idle afterwards. -/
theorem Ran.done_iff {r : Registry ω} {waiting hot : List Message}
    {result : Registry ω × FlushResult} (h : Ran L style r waiting hot result) :
    result.2 = .done ↔ result.1.emitter.isIdle = true := by
  cases h with
  | waiting hwaits => simp [Emitter.isIdle_of_isWaiting hwaits]
  | done r' hadvances hidle => simp [hidle]
  | suspended r' left hadvances hwaits hproceeds hprogress =>
    simp [Emitter.isIdle_of_isWaiting hwaits]

/-- It is pending when a drain is outstanding afterwards. -/
theorem Ran.pending_iff {r : Registry ω} {waiting hot : List Message}
    {result : Registry ω × FlushResult} (h : Ran L style r waiting hot result) :
    result.2 = .pending ↔ result.1.emitter.isWaiting = true := by
  cases h with
  | waiting hwaits => simp [hwaits]
  | done r' hadvances hidle =>
    have hready : ¬ r'.emitter.isWaiting = true := by
      intro hwaits
      rw [Emitter.isIdle_of_isWaiting hwaits] at hidle
      exact absurd hidle Bool.false_ne_true
    simp [hready]
  | suspended r' left hadvances hwaits hproceeds hprogress => simp [hwaits]

theorem run_ne_empty (r : Registry ω) : r.run.2 ≠ .empty := by
  unfold run
  dsimp only
  split <;> simp

/-- Where nothing waits any more, all that had waited was handed over. -/
theorem Advances.handed {r r' : Registry ω} {waiting hot : List Message}
    (h : Advances L style r waiting hot r' [] hot) (hsound : r.Sound L style waiting hot) :
    L.handed r'.writer = L.handed r.writer ++ Message.printAll style waiting := by
  have hdelivery := h.delivery
  have hnone : Message.printAll style [] = "" := rfl
  -- both deliveries end with what passes in the hot buffer, which is the same
  rw [Registry.delivery, Registry.delivery, passing_of_writeLevel h.writeLevel, h.sound.held,
    hsound.held, hnone, String.append_empty, String.append_empty, String.append_empty] at hdelivery
  exact (String.append_left_inj _).mp hdelivery

/-- A run that is done has handed over all that waited. -/
theorem Sound.handed_of_run {r : Registry ω} {waiting hot : List Message}
    (h : r.Sound L style waiting hot) (hdone : r.run.2 = .done) :
    L.handed r.run.1.writer = L.handed r.writer ++ Message.printAll style waiting := by
  have hran := h.run
  generalize r.run = result at hran hdone
  cases hran with
  | waiting hwaits => simp at hdone
  | done r' hadvances hidle => exact hadvances.handed h
  | suspended r' left hadvances hwaits hproceeds hprogress => simp at hdone

/-! ## The run of a flush -/

/-- **Whether there is a run for a flush**: one that is under way, or one to start. -/
def HasRun (r : Registry ω) (hot : List Message) : Prop :=
  r.emitter.isIdle = false ∨ r.passing hot ≠ []

/-- **The messages that the run of a flush is to print.** A run under way has those that it
did not print yet, and a new one those of the hot buffer that pass. -/
def running (r : Registry ω) (waiting hot : List Message) : List Message :=
  if r.emitter.isIdle then r.passing hot else waiting

omit [Writer ω] in
theorem not_hasRun_iff {r : Registry ω} {hot : List Message} :
    ¬ r.HasRun hot ↔ r.emitter.isIdle = true ∧ r.passing hot = [] := by
  rw [HasRun, not_or, Bool.not_eq_false, Classical.not_not]

/-- A flush starts its run with these messages, and the writer has not been called yet. -/
theorem Sound.refill_running {r : Registry ω} {waiting hot : List Message}
    (h : r.Sound L style waiting hot) (hsettled : r.Settled) :
    r.refill.writer = r.writer ∧
      ∃ hot', r.refill.Sound L style (r.running waiting hot) hot' := by
  by_cases hidle : r.emitter.isIdle = true
  · obtain ⟨hsound, -⟩ := h.refill hsettled hidle
    refine ⟨by rw [refill_of_idle hidle], [], ?_⟩
    rwa [running, if_pos hidle]
  · have hsame : r.refill = r := refill_of_not_idle (by simpa using hidle)
    refine ⟨by rw [hsame], hot, ?_⟩
    rwa [hsame, running, if_neg hidle]

/-- **The hot buffer is emptied** by a flush between runs, and left as it is by any other. -/
theorem Sound.flush_hot {r : Registry ω} {waiting hot : List Message}
    (h : r.Sound L style waiting hot) (hsettled : r.Settled) :
    r.flush.1.hot = if r.emitter.isIdle then r.hot.clear else r.hot := by
  by_cases hrun : r.HasRun hot
  · rw [h.flush_eq_run hsettled hrun, run_hot, Registry.refill]
    split <;> rfl
  · obtain ⟨hidle, hnone⟩ := not_hasRun_iff.mp hrun
    rw [flush_of_nothing h.free hidle (hsettled hidle).1 h.hot hnone, if_pos hidle]

/-! ## What each report means -/

section Reports

variable {r : Registry ω} {waiting hot : List Message}

theorem Sound.flush_empty_iff (h : r.Sound L style waiting hot) (hsettled : r.Settled) :
    r.flush.2 = .empty ↔ ¬ r.HasRun hot := by
  constructor
  · intro hempty hrun
    rw [h.flush_eq_run hsettled hrun] at hempty
    exact run_ne_empty _ hempty
  · intro hrun
    obtain ⟨hidle, hnone⟩ := not_hasRun_iff.mp hrun
    rw [flush_of_nothing h.free hidle (hsettled hidle).1 h.hot hnone]

theorem Sound.flush_done_iff (h : r.Sound L style waiting hot) (hsettled : r.Settled) :
    r.flush.2 = .done ↔ r.HasRun hot ∧ r.flush.1.emitter.isIdle = true := by
  obtain ⟨-, hot', hsound⟩ := h.refill_running hsettled
  by_cases hrun : r.HasRun hot
  · rw [h.flush_eq_run hsettled hrun, hsound.run.done_iff]
    exact (and_iff_right hrun).symm
  · have hempty := (h.flush_empty_iff hsettled).mpr hrun
    simp [hempty, hrun]

theorem Sound.flush_pending_iff (h : r.Sound L style waiting hot) (hsettled : r.Settled) :
    r.flush.2 = .pending ↔ r.flush.1.emitter.isWaiting = true := by
  obtain ⟨-, hot', hsound⟩ := h.refill_running hsettled
  by_cases hrun : r.HasRun hot
  · rw [h.flush_eq_run hsettled hrun]
    exact hsound.run.pending_iff
  · -- nothing was started, so the emitter is still idle and waits for no drain
    obtain ⟨hidle, hnone⟩ := not_hasRun_iff.mp hrun
    rw [flush_of_nothing h.free hidle (hsettled hidle).1 h.hot hnone]
    constructor
    · intro hpending
      exact absurd hpending (by simp)
    · intro hwaits
      exact absurd (Emitter.isIdle_of_isWaiting hwaits) (by simp [hidle])

/-- **A flush that is done** has handed over all of its run, and nothing is pending. -/
theorem Sound.flush_of_done (h : r.Sound L style waiting hot) (hsettled : r.Settled)
    (hdone : r.flush.2 = .done) :
    r.flush.1.emitter.isIdle = true ∧ r.flush.1.pending.slots = [] ∧
      L.handed r.flush.1.writer
        = L.handed r.writer ++ Message.printAll style (r.running waiting hot) := by
  obtain ⟨hwriter, hot', hsound⟩ := h.refill_running hsettled
  have hrun := ((h.flush_done_iff hsettled).mp hdone).1
  rw [h.flush_eq_run hsettled hrun] at hdone ⊢
  obtain ⟨hpending, hidle⟩ := run_of_done hdone
  refine ⟨hidle, hpending, ?_⟩
  rw [hsound.handed_of_run hdone, hwriter]

/-- So a new run that is done leaves nothing, and everything that passes is handed over. -/
theorem Sound.delivery_of_new (h : r.Sound L style waiting hot) (hsettled : r.Settled)
    (hdone : r.flush.2 = .done) (hidle : r.emitter.isIdle = true) :
    L.handed r.flush.1.writer = r.delivery L style waiting hot := by
  obtain rfl := h.waiting_of_idle hsettled hidle
  have hnone : Message.printAll style [] = "" := rfl
  rw [(h.flush_of_done hsettled hdone).2.2, running, if_pos hidle, delivery, h.held, hnone,
    String.append_empty, String.append_empty]

/-- One that had been under way leaves what passes in the hot buffer. -/
theorem Sound.delivery_of_resumed (h : r.Sound L style waiting hot) (hsettled : r.Settled)
    (hdone : r.flush.2 = .done) (hidle : r.emitter.isIdle = false) :
    L.handed r.flush.1.writer ++ Message.printAll style (r.passing hot)
      = r.delivery L style waiting hot := by
  rw [(h.flush_of_done hsettled hdone).2.2, running, if_neg (by simp [hidle]), delivery, h.held,
    String.append_empty]

end Reports

end Registry

/-! ## Flushes of a registry in service -/

namespace Service

variable {ω : Type} [Writer ω]

/-- **A flush tells what has happened.** Take any writer, any settings and any operations, and
let `r` be the registry they lead to, with the messages that it retains: those `waiting` in the
run that is under way, if any, and those of the `hot` buffer.

* A flush is empty if and only if no run is under way and no message of the hot buffer passes
  the write level. It then empties the hot buffer and does nothing else: with any other writer
  in place, of any kind, the flush is the same and leaves that writer as it is.
* It is done if and only if there was a run to start or to go on with and no run is under way
  afterwards. Then nothing is pending and all messages of that run were handed over. If the
  run was a new one the hot buffer is empty too, and the text of all that was logged was handed
  to the writers; if not, only what passes in the hot buffer is still to come.
* It is pending if and only if it leaves a drain outstanding.
* If a run was under way the hot buffer is left as it is.
* The record by which the text is known makes no difference. The writers alone, with the same
  done to the registry, leave it in the same state, and so does the flush, with the same report. -/
theorem flush_tells_what_happened (s : Settings) (w : ω)
    (ops : List (Operation (Recorded.ledger : Ledger (Recorded ω)))) :
    let p := (start s (Recorded.fresh w)).run ops
    let r := p.registry
    let text := (start s (Recorded.fresh w)).logged s.style ops
    ∃ waiting hot, r.Retains waiting hot ∧
    (r.flush.2 = .empty ↔ r.emitter.isIdle = true ∧
      ∀ m ∈ hot, m.level.passes r.writeLevel = false) ∧
    (r.flush.2 = .empty → r.flush.1 = { r with hot := r.hot.clear } ∧
      ∀ (ω' : Type) [Writer ω'] (w' : ω'),
        (r.withWriter w').flush = (r.flush.1.withWriter w', .empty)) ∧
    (r.flush.2 = .done ↔ (r.emitter.isIdle = false ∨
      ∃ m ∈ hot, m.level.passes r.writeLevel = true) ∧ r.flush.1.emitter.isIdle = true) ∧
    (r.flush.2 = .done → r.flush.1.emitter.isIdle = true ∧ r.flush.1.pending.slots = [] ∧
      r.flush.1.writer.handed
        = r.writer.handed ++ Message.printAll s.style (r.running waiting hot) ∧
      (r.emitter.isIdle = true →
        r.flush.1.hot.slots = [] ∧ p.archive ++ r.flush.1.writer.handed = text) ∧
      (r.emitter.isIdle = false → p.archive ++ r.flush.1.writer.handed
        ++ Message.printAll s.style (r.passing hot) = text)) ∧
    (r.flush.2 = .pending ↔ r.flush.1.emitter.isWaiting = true) ∧
    (r.emitter.isIdle = false → r.flush.1.hot = r.hot) ∧
    (let unrecorded := (Registry.new s w).accessAll (unrecorded ops)
     r.plain = unrecorded.quiet ∧ r.flush.1.plain = unrecorded.flush.1.quiet ∧
       r.flush.2 = unrecorded.flush.2) := by
  intro p r text
  have hstands : p.Stands Recorded.ledger s.style text := stands_logged s (Recorded.fresh w) ops
  have ⟨waiting, hot, hsound, hsettled, htext⟩ := hstands
  have hnone : r.passing hot = [] ↔ ∀ m ∈ hot, m.level.passes r.writeLevel = false := by
    simp [Registry.passing]
  have hsome : r.passing hot ≠ [] ↔ ∃ m ∈ hot, m.level.passes r.writeLevel = true := by
    simp [Registry.passing]
  refine ⟨waiting, hot, hsound.retains, ?_, ?_, ?_, ?_, hsound.flush_pending_iff hsettled, ?_, ?_⟩
  · rw [hsound.flush_empty_iff hsettled, Registry.not_hasRun_iff, hnone]
  · intro hempty
    obtain ⟨hidle, hpassing⟩ :=
      Registry.not_hasRun_iff.mp ((hsound.flush_empty_iff hsettled).mp hempty)
    have hpending := (hsettled hidle).1
    rw [Registry.flush_of_nothing hsound.free hidle hpending hsound.hot hpassing]
    refine ⟨rfl, ?_⟩
    intro ω' _ w'
    -- nothing that this rests on is about the writer
    have hfree' : (r.withWriter w').busy = false := hsound.free
    have hidle' : (r.withWriter w').emitter.isIdle = true := hidle
    exact Registry.flush_of_nothing hfree' hidle' hpending hsound.hot hpassing
  · rw [hsound.flush_done_iff hsettled, Registry.HasRun, hsome]
  · intro hdone
    obtain ⟨hidle, hpending, hhanded⟩ := hsound.flush_of_done hsettled hdone
    refine ⟨hidle, hpending, hhanded, ?_, ?_⟩
    · intro hnew
      have hdelivery := hsound.delivery_of_new hsettled hdone hnew
      refine ⟨?_, by rw [← htext, ← hdelivery]; rfl⟩
      rw [hsound.flush_hot hsettled, if_pos hnew, Buffer.slots_clear]
    · intro hresumed
      rw [← htext, ← hsound.delivery_of_resumed hsettled hdone hresumed, String.append_assoc]
      rfl
  · intro hresumed
    have hinFlight : ¬ p.registry.emitter.isIdle = true := ne_true_of_eq_false hresumed
    rw [hsound.flush_hot hsettled, if_neg hinFlight]
  · have hecho := echoes_unrecorded s w ops
    exact ⟨hecho.quiet_eq, hecho.flush.1.quiet_eq, hecho.flush.2⟩

end Service

end Logbook
