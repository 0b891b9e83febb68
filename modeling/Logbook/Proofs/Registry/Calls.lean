/-
What a call leaves as it is.

Of all the calls that start no run only a log reaches the hot buffer, and that only while
the registry is neither busy nor closed. Everything else is about loggers, formats, the
context and reports. `Registry.Keeps` lists what such a call leaves as it is, so that a
drain, which may make any number of calls, can be dealt with as one step.

Loggers matter to what is written in one respect: a message that passes the write level
has to pass the memory level of its logger. `Registry.IsWide` says that of every logger,
those included that do not exist yet.
-/
import Logbook.Registry.Flush
import Logbook.Proofs.Value.Named
import Logbook.Proofs.Buffer.Retained

set_option autoImplicit false

namespace Logbook

def Call.isLog : Call → Bool
  | .log _ _ _ _ => true
  | _ => false

namespace Registry

variable {ω : Type}

/-! ## Loggers that record what is to be written -/

/-- Whether a memory level lets everything through that is to be written. -/
def Records (r : Registry ω) (level : Level) : Prop :=
  r.writeLevel.passes level = true

/-- **Every logger records what is to be written.** -/
structure IsWide (r : Registry ω) : Prop where
  fresh : r.Records r.memoryLevel
  loggers : ∀ name, r.Records (r.loggerAt name).memoryLevel

theorem isWide_new (s : Settings) (w : ω) : (Registry.new s w).IsWide := by
  have hfresh : (Registry.new s w).Records (Registry.new s w).memoryLevel :=
    Level.passes_union_right s.memoryLevel s.writeLevel
  exact ⟨hfresh, fun name => hfresh⟩

/-- What is to be written is recorded. -/
theorem IsWide.isEnabled {r : Registry ω} (h : r.IsWide) {level : Level} (hoff : level ≠ .off)
    (hpasses : level.passes r.writeLevel = true) (name : String) :
    r.isEnabled name level = true := by
  have hmemory := Level.passes_trans hpasses (h.loggers name)
  simp [Registry.isEnabled, Logger.isEnabled, hoff, hmemory]

/-- The logger of a name after another was put under a name. -/
theorem loggerAt_insert (r : Registry ω) (name name' : String) (l : Logger) :
    ({ r with loggers := r.loggers.insert name l } : Registry ω).loggerAt name'
      = if name' = name then l else r.loggerAt name' := by
  unfold loggerAt
  rw [Named.get?_insert]
  split <;> rfl

/-- A logger that records what is to be written may be put under any name. -/
theorem IsWide.insert {r : Registry ω} (h : r.IsWide) (name : String) {l : Logger}
    (hl : r.Records l.memoryLevel) :
    ({ r with loggers := r.loggers.insert name l } : Registry ω).IsWide := by
  refine ⟨h.fresh, fun name' => ?_⟩
  rw [loggerAt_insert]
  split
  · exact hl
  · exact h.loggers name'

/-- A logger that is asked for records what is to be written: a level that is given is
widened. -/
theorem IsWide.logger {r : Registry ω} (h : r.IsWide) (name : String) (level : Option Level) :
    (r.logger name level).IsWide := by
  have hgiven : ∀ current, r.Records current →
      r.Records ((level.map (·.union r.writeLevel)).getD current) := by
    intro current hcurrent
    cases level with
    | none => exact hcurrent
    | some l => exact Level.passes_union_right l r.writeLevel
  unfold Registry.logger
  split
  · rename_i l hl
    have hsame : r.loggerAt name = l := by rw [loggerAt, hl, Option.getD_some]
    exact h.insert name (hgiven _ (hsame ▸ h.loggers name))
  -- the report that a logger was made comes on top
  · have hnew := h.insert name (l := ⟨(level.map (·.union r.writeLevel)).getD r.memoryLevel, .empty⟩)
      (hgiven _ h.fresh)
    exact ⟨hnew.fresh, hnew.loggers⟩

/-! ## The frame of a call -/

/-- **What is left as it is** from `r` to `s`: the buffers, the emitter, the writer and the
write level, and the loggers record what they have to. -/
structure Keeps (r s : Registry ω) : Prop where
  busy : s.busy = r.busy
  closed : s.closed = r.closed
  hot : s.hot = r.hot
  pending : s.pending = r.pending
  emitter : s.emitter = r.emitter
  writer : s.writer = r.writer
  writeLevel : s.writeLevel = r.writeLevel
  wide : r.IsWide → s.IsWide

theorem Keeps.refl (r : Registry ω) : Keeps r r :=
  ⟨rfl, rfl, rfl, rfl, rfl, rfl, rfl, id⟩

theorem Keeps.trans {r s t : Registry ω} (h : Keeps r s) (h' : Keeps s t) : Keeps r t :=
  ⟨h'.busy.trans h.busy, h'.closed.trans h.closed, h'.hot.trans h.hot,
    h'.pending.trans h.pending, h'.emitter.trans h.emitter, h'.writer.trans h.writer,
    h'.writeLevel.trans h.writeLevel, h'.wide ∘ h.wide⟩

/-- Nothing of this depends on the writer, so that another may be put in on both sides. -/
theorem Keeps.withWriter {r s : Registry ω} (h : Keeps r s) (w : ω) :
    Keeps { r with writer := w } { s with writer := w } := by
  refine ⟨h.busy, h.closed, h.hot, h.pending, h.emitter, rfl, h.writeLevel, fun hwide => ?_⟩
  have hwide' := h.wide ⟨hwide.fresh, hwide.loggers⟩
  exact ⟨hwide'.fresh, hwide'.loggers⟩

theorem keeps_report (r : Registry ω) (d : Diagnostic) : Keeps r (r.report d) :=
  ⟨rfl, rfl, rfl, rfl, rfl, rfl, rfl, fun h => ⟨h.fresh, h.loggers⟩⟩

theorem keeps_logger (r : Registry ω) (name : String) (level : Option Level) :
    Keeps r (r.logger name level) := by
  refine ⟨?_, ?_, ?_, ?_, ?_, ?_, ?_, fun h => h.logger name level⟩ <;>
    (unfold logger
     split <;> rfl)

theorem keeps_modifyContext (r : Registry ω) (logger : String) (f : Context → Context) :
    Keeps r (r.modifyContext logger f) := by
  unfold modifyContext
  split
  · exact keeps_report r _
  · exact ⟨rfl, rfl, rfl, rfl, rfl, rfl, rfl, fun h => ⟨h.fresh, h.loggers⟩⟩

theorem keeps_register (r : Registry ω) (logger name : String) (source : Source) :
    Keeps r (r.register logger name source).1 := by
  unfold register
  split
  · exact keeps_report r _
  · split
    · exact ⟨rfl, rfl, rfl, rfl, rfl, rfl, rfl, fun h => h.insert logger (h.loggers logger)⟩
    · exact keeps_report r _

theorem keeps_registerAll (r : Registry ω) (logger : String) (formats : List (String × String)) :
    Keeps r (r.registerAll logger formats).1 := by
  induction formats generalizing r with
  | nil => exact Keeps.refl r
  | cons entry rest ih =>
    obtain ⟨name, text⟩ := entry
    have h := keeps_register r logger name (.template text)
    unfold registerAll
    split
    · rename_i r' heq
      rw [heq] at h
      exact h.trans (ih r')
    · exact h

/-- A message that comes while the registry is busy or closed is not recorded. -/
theorem keeps_log {r : Registry ω} (h : r.busy = true ∨ r.closed = true) (logger : String)
    (level : Level) (format : String) (args : Arguments) :
    Keeps r (r.log logger level format args) := by
  unfold log
  split
  · split
    · exact keeps_report r _
    · by_cases hbusy : r.busy = true
      · rw [if_pos hbusy]
        exact keeps_report r _
      · rw [if_neg hbusy, if_pos (h.resolve_left hbusy)]
        exact Keeps.refl r
  · exact Keeps.refl r

/-- **A call that starts no run** leaves all of this as it is, unless it is a log that comes
at a time when it is recorded. -/
theorem keeps_answer {r : Registry ω} {c : Call}
    (h : c.isLog = true → r.busy = true ∨ r.closed = true) : Keeps r (r.answer c).1 := by
  cases c with
  | log logger level format args => exact keeps_log (h rfl) logger level format args
  | register logger name source => exact keeps_register r logger name source
  | registerAll logger formats => exact keeps_registerAll r logger formats
  | tick logger =>
    exact keeps_modifyContext r logger fun c => { c with logicalTime := c.logicalTime + 1 }
  | setRequestId logger id =>
    exact keeps_modifyContext r logger fun c => { c with requestId := id }
  | setCallbackId logger id =>
    exact keeps_modifyContext r logger fun c => { c with callbackId := id }
  | dump logger =>
    simp only [answer, dump]
    split
    · exact keeps_report r _
    · exact Keeps.refl r
  | hasFormat | isEnabled | memoryLevel | describe | describeLogger | flush | close =>
    exact Keeps.refl r

/-- No such call reaches the writer, a log that is recorded included. -/
theorem writer_answer (r : Registry ω) (c : Call) : (r.answer c).1.writer = r.writer := by
  by_cases hlog : c.isLog = true
  · cases c with
    | log logger level format args =>
      show (r.log logger level format args).writer = _
      unfold log
      split
      · split
        · rfl
        · split
          · rfl
          · split <;> rfl
      · rfl
    | _ => simp [Call.isLog] at hlog
  · exact (keeps_answer fun h => absurd h hlog).writer

end Registry

/-! ## Drains -/

namespace Reentry

variable {α σ : Type}

/-- **Whatever the replies are**, a drain ends with a result of that kind. -/
def Always (P : α → Prop) : Reentry α → Prop
  | .done a => P a
  | .report _ next => next.Always P
  | .call _ next => ∀ reply, (next reply).Always P

theorem run_always {P : α → Prop} {p : Reentry α} (h : p.Always P)
    (report : σ → Diagnostic → σ) (answer : σ → Call → σ × Reply) (s : σ) :
    P (p.run report answer s).2 := by
  induction p generalizing s with
  | done a => exact h
  | report d next ih => exact ih h (report s d)
  | call c next ih => exact ih (answer s c).2 (h (answer s c).2) (answer s c).1

theorem always_bind {β : Type} {P : β → Prop} {p : Reentry α} {next : α → Reentry β}
    (h : ∀ a, (next a).Always P) : (p.bind next).Always P := by
  induction p with
  | done a => exact h a
  | report d rest ih => exact ih
  | call c rest ih => exact fun reply => ih reply

/-- The calls that a drain makes of a busy registry are one step. -/
theorem keeps_run {ω : Type} (p : Reentry α) {r : Registry ω} (hbusy : r.busy = true) :
    Registry.Keeps r (p.run Registry.report Registry.answer r).1 := by
  induction p generalizing r with
  | done a => exact .refl r
  | report d next ih => exact (Registry.keeps_report r d).trans (ih (r := r.report d) hbusy)
  | call c next ih =>
    have hkeeps : Registry.Keeps r (r.answer c).1 := Registry.keeps_answer fun _ => .inl hbusy
    exact hkeeps.trans (ih (r.answer c).2 (hkeeps.busy.trans hbusy))

end Reentry

end Logbook
