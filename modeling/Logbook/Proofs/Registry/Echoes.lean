/-
Registries that echo each other.

What a call or a message does not change shows when two runs are set side by side, one of them
without it. The registries of the two runs need not be the same. Their writers may be of two
kinds, where the drains of one do what the drains of the other do and make more calls on the way.
And their hot buffers may differ in what is never written. What stays is `Registry.Echoes`: all
that a flush goes by is the same on both sides. Every operation keeps it, and both sides answer
alike.

What hot buffers may differ in is a parameter, a `Likeness`. The likeness that allows for no
difference is the equality of registries, but for what they have reported.
-/
import Logbook.Proofs.Emission.Sink
import Logbook.Proofs.Registry.Access
import Logbook.Proofs.Registry.Delivery

set_option autoImplicit false

namespace Logbook

/-! ## Drains with calls in between -/

/-- Whether a call may register a format, which is possible at any time. -/
def Call.registers : Call → Bool
  | .register _ _ _ => true
  | .registerAll _ _ => true
  | _ => false

/-- Whether a call shows what is in memory. -/
def Call.isDump : Call → Bool
  | .dump _ => true
  | _ => false

namespace Reentry

variable {α β γ : Type}

/-- **A drain does what another does, and calls in between** that register nothing. Whatever
these are answered, it goes on as the other does. The result is seen through a function. -/
inductive Covers (f : α → β) : Reentry α → Reentry β → Prop where
  | done (a : α) : Covers f (.done a) (.done (f a))
  | report (d : Diagnostic) {p : Reentry α} {q : Reentry β} (h : Covers f p q) :
    Covers f (.report d p) (.report d q)
  | call (c : Call) {next : Reply → Reentry α} {next' : Reply → Reentry β}
      (h : ∀ reply, Covers f (next reply) (next' reply)) :
    Covers f (.call c next) (.call c next')
  | extra (c : Call) (hc : c.registers = false) {next : Reply → Reentry α} {q : Reentry β}
      (h : ∀ reply, Covers f (next reply) q) :
    Covers f (.call c next) q

theorem Covers.refl (p : Reentry α) : p.Covers id p := by
  induction p with
  | done a => exact .done a
  | report d next ih => exact .report d ih
  | call c next ih => exact .call c ih

/-- What is made of the result in the end may be seen through as well. -/
theorem Covers.bind_done {f : α → β} {p : Reentry α} {q : Reentry β} (h : p.Covers f q)
    {g : α → γ} {f' : γ → β} (hg : ∀ a, f' (g a) = f a) :
    (p.bind fun a => .done (g a)).Covers f' q := by
  induction h with
  | done a =>
    rw [← hg]
    exact .done (g a)
  | report d h ih => exact .report d ih
  | call c h ih => exact .call c ih
  | extra c hc h ih => exact .extra c hc ih

end Reentry

/-- **Writers seen through a function**: both take the same text and want the same drains, and
the drains of the first cover those of the second. -/
structure Covering (ω ω' : Type) [Writer ω] [Writer ω'] where
  view : ω → ω'
  emit : ∀ w text, Writer.emit (view w) text = view (Writer.emit w text)
  wantsDrain : ∀ w, Writer.wantsDrain (view w) = Writer.wantsDrain w
  drain : ∀ w, (Writer.drain w).Covers (Prod.map view id) (Writer.drain (view w))

/-! ## Memories that are alike -/

/-- **What two memories may differ in.** A memory is a hot buffer and the clock of its messages.
Memories that are alike give the same to any buffer at the level of the likeness, and a message
that is recorded in both leaves them alike. -/
structure Likeness where
  level : Level
  alike : Buffer × Clock → Buffer × Clock → Prop
  copy : ∀ {m m' : Buffer × Clock}, alike m m' → ∀ target : Buffer,
    m.1.copyRetained level target = m'.1.copyRetained level target
  clear : ∀ {m m' : Buffer × Clock}, alike m m' → alike (m.1.clear, m.2) (m'.1.clear, m'.2)
  log : ∀ {m m' : Buffer × Clock}, alike m m' →
    ∀ (origin : Origin) (l : Level) (f : Format) (args : Arguments),
      alike (m.1.log m.2 origin l f args) (m'.1.log m'.2 origin l f args)

/-- No difference at all. -/
def Likeness.exact (level : Level) : Likeness where
  level := level
  alike := Eq
  copy h target := by rw [h]
  clear h := by rw [h]
  log h origin l f args := by rw [h]

namespace Registry

variable {ω ω' : Type}

/-- A registry with another writer, of any kind. -/
def withWriter (r : Registry ω) (w : ω') : Registry ω' :=
  { context := r.context
    clock := r.clock
    hot := r.hot
    pending := r.pending
    emitter := r.emitter
    writer := w
    writeLevel := r.writeLevel
    memoryLevel := r.memoryLevel
    loggers := r.loggers
    closed := r.closed
    busy := r.busy
    reports := r.reports }

/-- A registry with another writer, another memory and other reports. -/
def disguised (r : Registry ω) (w : ω') (m : Buffer × Clock) (reports : Array Diagnostic) :
    Registry ω' :=
  { r.withWriter w with hot := m.1, clock := m.2, reports := reports }

/-- **A registry echoes another**: it has its writer as it is seen through a function, a memory
that is like its memory, and any reports. All else is the same. -/
inductive Echoes (L : Likeness) (f : ω → ω') : Registry ω → Registry ω' → Prop where
  | intro (r : Registry ω) (m : Buffer × Clock) (reports : Array Diagnostic)
      (hlevel : r.writeLevel = L.level) (hm : L.alike (r.hot, r.clock) m) :
    Echoes L f r (r.disguised (f r.writer) m reports)

/-- A registry that has nothing to report. -/
def quiet (r : Registry ω) : Registry ω := { r with reports := #[] }

/-- **A busy registry that is asked for anything but a format** does nothing but report. -/
theorem quiet_answer {r : Registry ω} (hbusy : r.busy = true) {c : Call}
    (hc : c.registers = false) : (r.answer c).1.quiet = r.quiet := by
  cases c with
  | log logger level format args =>
    show (r.log logger level format args).quiet = r.quiet
    unfold log
    rw [hbusy]
    split
    · split <;> rfl
    · rfl
  | register logger name source => simp [Call.registers] at hc
  | registerAll logger formats => simp [Call.registers] at hc
  | tick logger | setRequestId logger id | setCallbackId logger id =>
    simp only [answer, modifyContext]
    rw [if_pos hbusy]
    rfl
  | dump logger =>
    simp only [answer, dump]
    rw [if_pos hbusy]
    rfl
  | hasFormat | isEnabled | memoryLevel | describe | describeLogger | flush | close => rfl

variable {L : Likeness} {f : ω → ω'} {r : Registry ω} {r' : Registry ω'}

namespace Echoes

theorem busy (h : r.Echoes L f r') : r'.busy = r.busy := by
  cases h
  rfl

theorem emitter (h : r.Echoes L f r') : r'.emitter = r.emitter := by
  cases h
  rfl

theorem pending (h : r.Echoes L f r') : r'.pending = r.pending := by
  cases h
  rfl

theorem writer (h : r.Echoes L f r') : r'.writer = f r.writer := by
  cases h
  rfl

/-- **Echoes without a difference** are equal, but for the reports. -/
theorem quiet_eq {level : Level} (h : r.Echoes (.exact level) f r') :
    (r.withWriter (f r.writer)).quiet = r'.quiet := by
  cases h with
  | intro m reports hlevel hm =>
    obtain rfl := hm
    rfl

theorem hot_eq {level : Level} (h : r.Echoes (.exact level) f r') : r.hot = r'.hot := by
  cases h with
  | intro m reports hlevel hm =>
    obtain rfl := hm
    rfl

/-! ## Calls that start no run -/

/-- The reports of a registry are not heard. -/
theorem of_quiet {s : Registry ω} (h : r.Echoes L f r') (hs : s.quiet = r.quiet) :
    s.Echoes L f r' := by
  have hsame : s = { r with reports := s.reports } := by
    show ({ s.quiet with reports := s.reports } : Registry ω)
      = { r.quiet with reports := s.reports }
    rw [hs]
  rw [hsame]
  cases h with
  | intro m reports hlevel hm => exact .intro { r with reports := s.reports } m reports hlevel hm

theorem report (h : r.Echoes L f r') (d d' : Diagnostic) :
    (r.report d).Echoes L f (r'.report d') := by
  cases h with
  | intro m reports hlevel hm => exact .intro (r.report d) m (reports.push d') hlevel hm

theorem logger (h : r.Echoes L f r') (name : String) (level : Option Level) :
    (r.logger name level).Echoes L f (r'.logger name level) := by
  cases h with
  | intro m reports hlevel hm =>
    have hloggers : (r.disguised (f r.writer) m reports).loggers = r.loggers := rfl
    unfold Registry.logger
    rw [hloggers]
    cases r.loggers.get? name with
    | none => exact .intro _ m _ hlevel hm
    | some l => exact .intro _ m _ hlevel hm

theorem log (h : r.Echoes L f r') (logger : String) (level : Level) (format : String)
    (args : Arguments) :
    (r.log logger level format args).Echoes L f (r'.log logger level format args) := by
  cases h with
  | intro m reports hlevel hm =>
    have henabled : (r.disguised (f r.writer) m reports).isEnabled logger level
        = r.isEnabled logger level := rfl
    have hlogger : (r.disguised (f r.writer) m reports).loggerAt logger = r.loggerAt logger := rfl
    unfold Registry.log
    rw [henabled, hlogger]
    split
    · cases (r.loggerAt logger).formats.get? format with
      | none => exact .intro _ m _ hlevel hm
      | some format' =>
        show Echoes L f (if r.busy then _ else if r.closed then _ else _)
          (if r.busy then _ else if r.closed then _ else _)
        split
        · exact .intro _ m _ hlevel hm
        · split
          · exact .intro _ m _ hlevel hm
          · exact .intro _ _ _ hlevel (L.log hm ⟨r.context, logger⟩ level format' args)
    · exact .intro _ m _ hlevel hm

theorem register (h : r.Echoes L f r') (logger name : String) (source : Source) :
    (r.register logger name source).1.Echoes L f (r'.register logger name source).1 ∧
      (r.register logger name source).2 = (r'.register logger name source).2 := by
  cases h with
  | intro m reports hlevel hm =>
    unfold Registry.register
    by_cases htaken : r.hasFormat logger name = true
    · have htaken' : (r.disguised (f r.writer) m reports).hasFormat logger name = true := htaken
      rw [if_pos htaken, if_pos htaken']
      exact ⟨.intro _ m _ hlevel hm, rfl⟩
    · have htaken' : ¬ (r.disguised (f r.writer) m reports).hasFormat logger name = true := htaken
      rw [if_neg htaken, if_neg htaken']
      cases source.compile name with
      | ok format => exact ⟨.intro _ m _ hlevel hm, rfl⟩
      | error e => exact ⟨.intro _ m _ hlevel hm, rfl⟩

theorem registerAll (h : r.Echoes L f r') (logger : String) (formats : List (String × String)) :
    (r.registerAll logger formats).1.Echoes L f (r'.registerAll logger formats).1 ∧
      (r.registerAll logger formats).2 = (r'.registerAll logger formats).2 := by
  induction formats generalizing r r' with
  | nil => exact ⟨h, rfl⟩
  | cons entry rest ih =>
    obtain ⟨name, text⟩ := entry
    obtain ⟨hfirst, hrefusal⟩ := h.register logger name (.template text)
    unfold Registry.registerAll
    generalize r.register logger name (.template text) = result at hfirst hrefusal
    generalize r'.register logger name (.template text) = result' at hfirst hrefusal
    obtain ⟨r₁, refusal⟩ := result
    obtain ⟨r₁', refusal'⟩ := result'
    obtain rfl : refusal = refusal' := hrefusal
    cases refusal with
    | none => exact ih hfirst
    | some refusal => exact ⟨hfirst, rfl⟩

theorem modifyContext (h : r.Echoes L f r') (logger : String) (g : Context → Context) :
    (r.modifyContext logger g).Echoes L f (r'.modifyContext logger g) := by
  cases h with
  | intro m reports hlevel hm =>
    unfold Registry.modifyContext
    show Echoes L f _ (if r.busy then _ else _)
    split
    · exact .intro _ m _ hlevel hm
    · exact .intro _ m _ hlevel hm

theorem dump (h : r.Echoes L f r') (logger : String) :
    (r.dump logger).1.Echoes L f (r'.dump logger).1 ∧
      (r.busy = true ∨ r.hot = r'.hot → (r.dump logger).2 = (r'.dump logger).2) := by
  cases h with
  | intro m reports hlevel hm =>
    unfold Registry.dump
    by_cases hbusy : r.busy = true
    · have hbusy' : (r.disguised (f r.writer) m reports).busy = true := hbusy
      rw [if_pos hbusy, if_pos hbusy']
      exact ⟨.intro _ m _ hlevel hm, fun _ => rfl⟩
    · have hbusy' : ¬ (r.disguised (f r.writer) m reports).busy = true := hbusy
      rw [if_neg hbusy, if_neg hbusy']
      refine ⟨.intro _ m _ hlevel hm, fun hsame => ?_⟩
      rw [hsame.resolve_left hbusy]
      rfl

/-- **A call that starts no run** leaves the registries alike. It is answered alike, too, if it
does not show the hot buffers or these are the same. -/
theorem answer (h : r.Echoes L f r') (c : Call) :
    (r.answer c).1.Echoes L f (r'.answer c).1 ∧
      (c.isDump = false ∨ r.busy = true ∨ r.hot = r'.hot →
        (r.answer c).2 = (r'.answer c).2) := by
  cases c with
  | log logger level format args => exact ⟨h.log logger level format args, fun _ => rfl⟩
  | register logger name source =>
    obtain ⟨hecho, hrefusal⟩ := h.register logger name source
    exact ⟨hecho, fun _ => congrArg Reply.registered hrefusal⟩
  | registerAll logger formats =>
    obtain ⟨hecho, hrefusal⟩ := h.registerAll logger formats
    exact ⟨hecho, fun _ => congrArg Reply.registered hrefusal⟩
  | tick logger =>
    refine ⟨?_, fun _ => rfl⟩
    exact h.modifyContext logger fun c => { c with logicalTime := c.logicalTime + 1 }
  | setRequestId logger id =>
    exact ⟨h.modifyContext logger fun c => { c with requestId := id }, fun _ => rfl⟩
  | setCallbackId logger id =>
    exact ⟨h.modifyContext logger fun c => { c with callbackId := id }, fun _ => rfl⟩
  | dump logger =>
    obtain ⟨hecho, hdump⟩ := h.dump logger
    refine ⟨hecho, fun hshown => congrArg Reply.dump (hdump ?_)⟩
    exact hshown.resolve_left (by simp [Call.isDump])
  | hasFormat | isEnabled | memoryLevel | describe | describeLogger | flush | close =>
    refine ⟨h, fun _ => ?_⟩
    cases h
    rfl

/-! ## Drains -/

theorem withWriter (h : r.Echoes L f r') (w : ω) :
    ({ r with writer := w } : Registry ω).Echoes L f { r' with writer := f w } := by
  cases h with
  | intro m reports hlevel hm => exact .intro { r with writer := w } m reports hlevel hm

theorem settle (h : r.Echoes L f r') (outcome : Signal) :
    (r.settle outcome).Echoes L f (r'.settle outcome) := by
  cases h with
  | intro m reports hlevel hm => exact .intro (r.settle outcome) m reports hlevel hm

/-- **A drain and one that it covers** leave busy registries alike and come to the same result.
Calls that are made in between are not heard. -/
theorem run_drain {α β : Type} {g : α → β} {p : Reentry α} {q : Reentry β} (hpq : p.Covers g q)
    (h : r.Echoes L f r') (hbusy : r.busy = true) :
    (p.run Registry.report Registry.answer r).1.Echoes L f
        (q.run Registry.report Registry.answer r').1 ∧
      (q.run Registry.report Registry.answer r').2
        = g (p.run Registry.report Registry.answer r).2 := by
  induction hpq generalizing r r' with
  | done a => exact ⟨h, rfl⟩
  | report d hpq ih => exact ih (h.report d d) hbusy
  | call c hpq ih =>
    obtain ⟨hecho, hreply⟩ := h.answer c
    simp only [Reentry.run]
    rw [← hreply (.inr (.inl hbusy))]
    exact ih (r.answer c).2 hecho (answer_keeps hbusy c).1
  | extra c hc hpq ih =>
    -- the first registry has reported something, and the second does not move
    have hecho : (r.answer c).1.Echoes L f r' := h.of_quiet (quiet_answer hbusy hc)
    exact ih (r.answer c).2 hecho (answer_keeps hbusy c).1

/-! ## Runs -/

/-- What a call of the emitter leaves behind is alike, if its states are. -/
theorem ended {a : Resumed (Registry ω)} {b : Resumed (Registry ω')}
    (h : a.state.Echoes L f b.state) (hemitter : a.emitter = b.emitter)
    (hbuffer : a.buffer = b.buffer) :
    ({ a.state with busy := false, emitter := a.emitter, pending := a.buffer } :
      Registry ω).Echoes L f
        { b.state with busy := false, emitter := b.emitter, pending := b.buffer } := by
  rw [← hemitter, ← hbuffer]
  generalize b.state = s' at h
  cases h with
  | intro m reports hlevel hm =>
    exact .intro { a.state with busy := false, emitter := a.emitter, pending := a.buffer } m reports
      hlevel hm

/-- **What is moved to the pending buffers is the same**, since memories that are alike give the
same. -/
theorem refill (h : r.Echoes L f r') : r.refill.Echoes L f r'.refill := by
  cases h with
  | intro m reports hlevel hm =>
    by_cases hidle : r.emitter.isIdle = true
    · have hcopy : m.1.copyRetained r.writeLevel r.pending
          = r.hot.copyRetained r.writeLevel r.pending := by
        rw [hlevel]
        exact (L.copy hm r.pending).symm
      have hrefill' : (r.disguised (f r.writer) m reports).refill
          = { (r.disguised (f r.writer) m reports) with
              hot := m.1.clear
              pending := m.1.copyRetained r.writeLevel r.pending } :=
        refill_of_idle hidle
      rw [hrefill', hcopy, refill_of_idle hidle]
      exact .intro { r with
        hot := r.hot.clear
        pending := r.hot.copyRetained r.writeLevel r.pending } (m.1.clear, m.2) reports hlevel
        (L.clear hm)
    · have hidle' : ¬ (r.disguised (f r.writer) m reports).emitter.isIdle = true := hidle
      rw [Registry.refill, Registry.refill, if_neg hidle, if_neg hidle']
      exact .intro r m reports hlevel hm

variable [Writer ω] [Writer ω'] {C : Covering ω ω'}

/-- **As surroundings** of their emission registries that are alike stay alike. -/
theorem matches_sink (L : Likeness) (C : Covering ω ω') :
    (sink : Sink (Registry ω)).Matches (sink : Sink (Registry ω'))
      fun r r' => r.Echoes L C.view r' ∧ r.busy = true where
  emit := by
    rintro r r' text ⟨h, hbusy⟩
    refine ⟨?_, hbusy⟩
    show Echoes L C.view { r with writer := _ } { r' with writer := Writer.emit r'.writer text }
    rw [h.writer, C.emit]
    exact h.withWriter _
  report := by
    rintro r r' d ⟨h, hbusy⟩
    exact ⟨h.report d d, hbusy⟩
  wantsDrain := by
    rintro r r' ⟨h, hbusy⟩
    show Writer.wantsDrain r.writer = Writer.wantsDrain r'.writer
    rw [h.writer, C.wantsDrain]
  drain := by
    rintro r r' ⟨h, hbusy⟩
    have hcovers := C.drain r.writer
    rw [← h.writer] at hcovers
    obtain ⟨hecho, hresult⟩ := run_drain hcovers h hbusy
    have hstays := (Reentry.keeps_run (Writer.drain r.writer) hbusy).busy
    -- the result of a drain is a writer and a signal
    generalize hout : (Writer.drain r.writer).run Registry.report Registry.answer r = out
      at hecho hresult hstays
    generalize hout' : (Writer.drain r'.writer).run Registry.report Registry.answer r' = out'
      at hecho hresult
    obtain ⟨s, w, signal⟩ := out
    obtain ⟨s', w', signal'⟩ := out'
    obtain ⟨rfl, rfl⟩ := Prod.mk.inj hresult
    simp only [sink, hout, hout']
    exact ⟨⟨hecho.withWriter w, hstays.trans hbusy⟩, trivial⟩

/-- **A run** comes to the same. -/
theorem run (h : r.Echoes L C.view r') :
    r.run.1.Echoes L C.view r'.run.1 ∧ r.run.2 = r'.run.2 := by
  cases h with
  | intro m reports hlevel hm =>
    have hstart : ({ r with busy := true } : Registry ω).Echoes L C.view
        { r.disguised (C.view r.writer) m reports with busy := true } :=
      .intro { r with busy := true } m reports hlevel hm
    obtain ⟨hemitter, hbuffer, hstatus, hecho, -⟩ :=
      (matches_sink L C).resume r.emitter r.pending ⟨hstart, rfl⟩
    refine ⟨hecho.ended hemitter hbuffer, ?_⟩
    unfold Registry.run
    simp only
    rw [hstatus]
    rfl

theorem flush (h : r.Echoes L C.view r') :
    r.flush.1.Echoes L C.view r'.flush.1 ∧ r.flush.2 = r'.flush.2 := by
  have hrefill := h.refill
  unfold Registry.flush
  by_cases hbusy : r.busy = true
  · rw [if_pos hbusy, if_pos (h.busy.trans hbusy)]
    exact ⟨h, rfl⟩
  · have hbusy' : ¬ r'.busy = true := by rwa [h.busy]
    rw [if_neg hbusy, if_neg hbusy']
    simp only [hrefill.emitter, hrefill.pending]
    by_cases hempty : (r.refill.emitter.isIdle && r.refill.pending.isEmpty) = true
    · simp only [if_pos hempty]
      exact ⟨hrefill, trivial⟩
    · simp only [if_neg hempty]
      exact hrefill.run

theorem flush_eq (h : r.Echoes L C.view r') {s : Registry ω} {result : FlushResult}
    (hflush : r.flush = (s, result)) :
    ∃ s', r'.flush = (s', result) ∧ s.Echoes L C.view s' := by
  obtain ⟨hecho, hresult⟩ := h.flush
  rw [hflush] at hecho hresult
  exact ⟨r'.flush.1, Prod.ext rfl hresult.symm, hecho⟩

theorem flushAll (h : r.Echoes L C.view r') :
    r.flushAll.1.Echoes L C.view r'.flushAll.1 ∧ r.flushAll.2 = r'.flushAll.2 := by
  fun_induction Registry.flushAll r generalizing r' with
  | case1 r s hflush ih =>
    obtain ⟨s', hflush', hecho⟩ := h.flush_eq hflush
    rw [flushAll_eq r', hflush']
    exact ih hecho
  | case2 r s hflush =>
    obtain ⟨s', hflush', hecho⟩ := h.flush_eq hflush
    rw [flushAll_eq r', hflush']
    exact ⟨hecho, rfl⟩
  | case3 r s hflush =>
    obtain ⟨s', hflush', hecho⟩ := h.flush_eq hflush
    rw [flushAll_eq r', hflush']
    exact ⟨hecho, rfl⟩

/-- **So does a close**, however many runs it takes. -/
theorem close (h : r.Echoes L C.view r') :
    r.close.1.Echoes L C.view r'.close.1 ∧ r.close.2 = r'.close.2 := by
  unfold Registry.close
  by_cases hbusy : r.busy = true
  · rw [if_pos hbusy, if_pos (h.busy.trans hbusy)]
    exact ⟨h, rfl⟩
  · have hbusy' : ¬ r'.busy = true := by rwa [h.busy]
    rw [if_neg hbusy, if_neg hbusy']
    apply flushAll
    cases h with
    | intro m reports hlevel hm => exact .intro { r with closed := true } m reports hlevel hm

/-- **So does any call.** -/
theorem call (h : r.Echoes L C.view r') (c : Call) :
    (r.call c).1.Echoes L C.view (r'.call c).1 ∧
      (c.isDump = false ∨ r.busy = true ∨ r.hot = r'.hot → (r.call c).2 = (r'.call c).2) := by
  cases c with
  | flush => exact ⟨h.flush.1, fun _ => congrArg Reply.flushed h.flush.2⟩
  | close => exact ⟨h.close.1, fun _ => congrArg Reply.flushed h.close.2⟩
  | _ => exact h.answer _

/-! ## Everything that is done with both -/

/-- **A step from outside** leaves registries alike, if it is taken with both. -/
theorem access (h : r.Echoes L C.view r') (a : Access ω) :
    (r.access a).Echoes L C.view (r'.access (a.via C.view)) := by
  cases a with
  | logger name level => exact h.logger name level
  | call c => exact (h.call c).1
  | setWriter w =>
    rw [Access.via]
    by_cases hidle : r.emitter.isIdle = true
    · have hidle' : r'.emitter.isIdle = true := by rwa [h.emitter]
      rw [access_of_idle hidle, access_of_idle hidle']
      exact h.withWriter w
    · have hidle' : ¬ r'.emitter.isIdle = true := by rwa [h.emitter]
      rw [access_of_not_idle hidle, access_of_not_idle hidle']
      exact h
  | settle outcome => exact h.settle outcome

theorem accessAll (h : r.Echoes L C.view r') (accesses : List (Access ω)) :
    (r.accessAll accesses).Echoes L C.view (r'.accessAll (accesses.map (.via C.view))) := by
  induction accesses generalizing r r' with
  | nil => exact h
  | cons a rest ih => exact ih (h.access a)

end Echoes

end Registry

end Logbook
