/-
An emitter finds its place again at every header.

Slots can come in any order, and what is printed of a slot depends on what came before it: brackets
that were opened, commas, a name that waits for its value, the entries of a message that was never
ended. All of that is in the frames. A header takes the place of them all, whatever they are, and a
whole message leaves none, so nothing that comes before a message is seen in its text, and neither
the message nor what comes before it is seen in the text of what comes behind it
(`text_steps_around`).

The rest is about calls. A call that begins a run and is done has emitted all the text of its
buffer, wherever it was held up by drains (`emitted_of_done`), and it is done if no drain is left
outstanding, whatever the slots are.
-/
import Logbook.Proofs.Emission.Feed
import Logbook.Proofs.Writer.Chunks
import Logbook.Proofs.Emission.Callback

set_option autoImplicit false

namespace Logbook

/-! ## Slots around a message -/

/-- **A message stands by itself** in the text of any slots, and so does what comes behind it. -/
theorem Frame.text_steps_around (style : Style) (frames : List Frame) (before : List Slot)
    (m : Message) (behind : List Slot) :
    (steps style frames (before ++ m.slots ++ behind)).text
      = (steps style frames before).text ++ m.print style ++ (steps style [] behind).text := by
  rw [steps_append, steps_append, steps_message]
  simp only [Step.followedBy]

/-! ## A call that is done -/

/-- Every drain is over when it returns: it was completed, or it was given up. -/
def Sink.Prompt {σ : Type} (k : Sink σ) : Prop := ∀ s, (k.drain s).2 ≠ .outstanding

/-- The default writer completes its drains at once. -/
theorem Buffered.prompt_sink {φ : Type} [Flusher φ] :
    (Writer.sink : Sink (Buffered φ × List Diagnostic)).Prompt := by
  rintro ⟨⟨held, threshold, flusher⟩, ds⟩
  rw [drain_held]
  simp

namespace Emitter

variable {σ : Type} {k : Sink σ} {e : Emitter} {b : Buffer}

theorem answers_of_prompt (hk : k.Prompt) (e : Emitter) (b : Buffer) (s : σ) :
    .outstanding ∉ e.answers k b s := by
  refine resume_keeps (k := k.answering) (P := fun p => .outstanding ∉ p.2)
    (fun _ _ h => h) (fun _ _ h => h) (fun p h hmem => ?_) e b (s, []) List.not_mem_nil
  rcases List.mem_append.mp hmem with hmem | hmem
  · exact h hmem
  · exact hk p.1 (List.mem_singleton.mp hmem).symm

/-- **A call is done** if no drain was outstanding and none is left so. -/
theorem done_of_prompt (hk : k.Prompt) (hwaits : e.isWaiting = false) (b : Buffer) (s : σ) :
    (e.resume k b s).status = .done := by
  rcases resume_cases k e b s with ⟨hstatus, -⟩ | ⟨-, hleft, -⟩
  · exact hstatus
  · rcases hleft with hwaits' | hleft
    · exact absurd (hwaits'.symm.trans hwaits) (by simp)
    · exact absurd hleft (answers_of_prompt hk e b s)

/-- How a drain is answered is not written down. -/
theorem drain_transcribed {p q : σ × String} {signal : Signal}
    (h : k.transcribed.drain p = (q, signal)) : q.2 = p.2 := by
  cases h
  rfl

theorem conclude_transcribed (e : Emitter) (p : σ × String) :
    (e.conclude k.transcribed b p).state.2 = p.2 := by
  -- neither the report of an open message nor the last drain is written down
  have hreport : (if e.frames.isEmpty then p
      else k.transcribed.report p (.endedInsideMessage e.frames.length)).2 = p.2 := by
    split <;> rfl
  unfold conclude
  simp only
  split <;> rename_i hdrain
  · exact (drain_transcribed hdrain).trans hreport
  · exact (drain_transcribed hdrain).trans hreport
  · exact (drain_transcribed hdrain).trans hreport

/-- **A walk that is done** has emitted the text of the slots that were left. One that stops before
them is not done. -/
theorem walk_transcribed (e : Emitter) (p : σ × String)
    (hdone : (e.walk k.transcribed b p).status = .done) :
    (e.walk k.transcribed b p).state.2
      = p.2 ++ (Frame.steps e.style e.frames (b.after e.cursor)).text := by
  -- what a step emits and what is left then make up what was left before it
  have hadvance : ∀ {e : Emitter} {c : Cursor} {x : Slot} (p : σ × String),
      b.slotFrom e.cursor = some (c, x) →
      (e.advance k.transcribed c x p).2.2.2
          ++ (Frame.steps (e.advance k.transcribed c x p).1.style
            (e.advance k.transcribed c x p).1.frames
            (b.after (e.advance k.transcribed c x p).1.cursor)).text
        = p.2 ++ (Frame.steps e.style e.frames (b.after e.cursor)).text := by
    intro e c x p hfrom
    have htext : (e.advance k.transcribed c x p).2.2.2
        = p.2 ++ (Frame.step e.style e.frames x).text :=
      advance_eq_of_report (k := k.transcribed) (f := Prod.snd) (fun _ _ => rfl) e c x p
    rw [htext, Buffer.after_eq_cons_of_slotFrom hfrom, Frame.steps, Frame.Step.followedBy,
      ← String.append_assoc]
    rfl
  fun_induction walk k.transcribed e b p with
  | case1 e p hfrom =>
    rw [conclude_transcribed, (b.slotFrom_eq_none_iff e.cursor).mp hfrom, Frame.steps,
      String.append_empty]
  | case2 e p c x hfrom next hwants q hdrain => simp [suspend] at hdone
  | case3 e p c x hfrom next hwants q hdrain ih =>
    rw [ih hdone, drain_transcribed hdrain, hadvance p hfrom]
  | case4 e p c x hfrom next hwants q hdrain ih =>
    have hreport : (k.transcribed.report q .drainDropped).2 = q.2 := rfl
    rw [ih hdone, hreport, drain_transcribed hdrain, hadvance p hfrom]
  | case5 e p c x hfrom next hwants ih => rw [ih hdone, hadvance p hfrom]

/-- **The text that a call emits.** -/
def emitted (k : Sink σ) (e : Emitter) (b : Buffer) (s : σ) : String :=
  (e.resume k.transcribed b (s, "")).state.2

/-- A call is the same whether or not its text is written down. -/
theorem resume_transcribed (k : Sink σ) (e : Emitter) (b : Buffer) (s : σ) :
    e.resume k b s = (e.resume k.transcribed b (s, "")).map Prod.fst :=
  resume_map (k.agrees_noting _ _) e b (s, "")

/-- **A whole run in one call** emits the text of the buffer. -/
theorem emitted_of_done (hstart : e.AtStart) {s : σ} (hdone : (e.resume k b s).status = .done) :
    e.emitted k b s = (Frame.steps e.style [] b.slots).text := by
  rw [resume_transcribed] at hdone
  have hwalk : e.resume k.transcribed b (s, "") = e.walk k.transcribed b (s, "") := by
    rw [resume, hstart.phase]
  rw [emitted, hwalk, walk_transcribed e (s, "") (by rw [← hwalk]; exact hdone), hstart.frames,
    hstart.cursor, Buffer.after_start, String.empty_append]

theorem AtStart.isWaiting (hstart : e.AtStart) : e.isWaiting = false := by
  rw [Emitter.isWaiting, hstart.phase]

/-- **Whatever comes before a message, it is printed as it is by itself.** Take an emitter that
is idle, after any occasions, and surroundings that leave no drain outstanding. Let a buffer hold
the slots of another, whatever these are, the slots of a message, and any slots behind them.

* One call does the run, and leaves the buffer empty and the emitter idle.
* The call is the same whether or not its text is written down. The text is that of the slots
  before the message, if they are all there is, that of the message alone and that of the slots
  behind it alone, one after the other. The states of the surroundings do not matter.
* The slots of the message are those that logging it appends to any buffer, and its text is the
  message as it is printed directly. -/
theorem recovers_at_header (hk : k.Prompt) {style : Style} {occasions : List (Occasion σ)}
    (hidle : ((Course.start style).run occasions).emitter.isIdle = true)
    {before behind : Buffer} {m : Message}
    (hb : b.slots = before.slots ++ m.slots ++ behind.slots) (s s₁ s₂ s₃ : σ) :
    let e := ((Course.start style).run occasions).emitter
    let r := e.resume k b s
    let alone := (Buffer.empty.log m.clock m.origin m.level m.format m.args).1
    (r.status = .done ∧ r.buffer.isEmpty = true ∧ r.emitter.isIdle = true) ∧
    (r = (e.resume k.transcribed b (s, "")).map Prod.fst ∧
      e.emitted k b s
        = e.emitted k before s₁ ++ e.emitted k alone s₂ ++ e.emitted k behind s₃) ∧
    (∀ other : Buffer, (other.log m.clock m.origin m.level m.format m.args).1.slots
      = other.slots ++ m.slots) ∧
    e.emitted k alone s₂ = m.print e.style := by
  intro e r alone
  have hstart : e.AtStart := (Course.inOrder_run style occasions).atStart hidle
  have hdone : ∀ (b : Buffer) (s : σ), (e.resume k b s).status = .done :=
    done_of_prompt hk hstart.isWaiting
  have htext : ∀ (b : Buffer) (s : σ),
      e.emitted k b s = (Frame.steps e.style [] b.slots).text :=
    fun b s => emitted_of_done hstart (hdone b s)
  have halone : e.emitted k alone s₂ = m.print e.style := by
    rw [htext, (Buffer.slots_log .empty m).1, Buffer.slots_empty, List.nil_append,
      Frame.steps_message]
  obtain ⟨hbuffer, hidle'⟩ := resume_of_done (hdone b s)
  refine ⟨⟨hdone b s, ?_, hidle'⟩, ⟨resume_transcribed k e b s, ?_⟩,
    fun other => (Buffer.slots_log other m).1, halone⟩
  · rw [hbuffer]
    exact (Buffer.isEmpty_iff_slots _).mpr (Buffer.slots_clear b)
  · rw [halone, htext b, htext before, htext behind, hb, Frame.text_steps_around]

/-- A bracket that was never opened, and a message that is left inside of a sequence after the name
of a field, between two runs of the default writer. -/
theorem recovers_after_stray_slots :
    let k : Sink (Buffered Captured × List Diagnostic) := Writer.sink
    let s := (Buffered.new Captured.empty 5, [])
    let m := Session.greeting
    let before := Buffer.empty.appendAll
      [.closing .record, .format m.format, .level .debug, .opening .sequence, .name "x"]
    let behind := Buffer.empty.appendAll [.finish, .scalar .null]
    let b := (before.log m.clock m.origin m.level m.format m.args).1.appendAll
      [.finish, .scalar .null]
    let e := ((Course.start .standard).run
      [.install "over", .resume k before s, .restyle .bare]).emitter
    k.Prompt ∧ e.isIdle = true ∧ b.slots = before.slots ++ m.slots ++ behind.slots ∧
      (e.resume k b s).status = .done ∧
      e.emitted k b s = "good morning[\"x\": " ++ "good morning\n" ++ "\nnull" := by
  intro k s m before behind b e
  have hk : k.Prompt := Buffered.prompt_sink
  have hidle : e.isIdle = true := by decide +kernel
  have hb : b.slots = before.slots ++ m.slots ++ behind.slots := by decide +kernel
  obtain ⟨⟨hdone, -⟩, ⟨-, htext⟩, -, halone⟩ := recovers_at_header hk hidle hb s s s s
  have hbefore : e.emitted k before s = "good morning[\"x\": " := by decide +kernel
  have hbehind : e.emitted k behind s = "\nnull" := by decide +kernel
  have hprint : m.print e.style = "good morning\n" := by decide +kernel
  exact ⟨hk, hidle, hb, hdone, htext.trans (by rw [hbefore, halone, hprint, hbehind])⟩

end Emitter

end Logbook
