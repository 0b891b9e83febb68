/-
Where a registry stands between two calls.

A flush relies on the emitter being idle exactly when nothing is pending, a close relies on the
same to come to its end, and a writer may be replaced when the emitter is idle because it holds
nothing then. None of that is looked at by a call; it is so because every call leaves it so.
`Registry.Orderly` is the state that is never left, whatever writer there is and whatever its
drains ask of the registry meanwhile.

There is one moment inside of a call when this is not so. A flush moves what passes to the
pending buffer first, and until the run starts the emitter is idle with messages pending. What
holds even then is `Registry.Stocked`, and a run that starts there ends in order.

Writers are of all kinds here, and of the text that one holds only this is known: some kinds
keep none over a drain. Since a call that stops always stops behind a drain, such a writer holds
nothing between two calls.
-/
import Logbook.Proofs.Registry.Access
import Logbook.Proofs.Registry.Delivery

set_option autoImplicit false

namespace Logbook

/-! ## Writers that keep nothing over a drain -/

/-- **A kind of writer that keeps no text over a drain**, whatever the calls are answered that
the drain makes. What a writer holds is read off its state. -/
structure Relays (ω : Type) [Writer ω] where
  are : ω → Prop
  held : ω → String
  emit : ∀ {w} (text : String), are w → are (Writer.emit w text)
  drain : ∀ {w}, are w → (Writer.drain w).Always fun p => are p.1 ∧ held p.1 = ""

namespace Relays

variable {ω : Type} [Writer ω]

/-- A writer of the kind that holds nothing. -/
def Empty (K : Relays ω) (w : ω) : Prop := K.are w ∧ K.held w = ""

theorem are_foldl_emit (K : Relays ω) (texts : List String) {w : ω} (h : K.are w) :
    K.are (texts.foldl Writer.emit w) := by
  induction texts generalizing w with
  | nil => exact h
  | cons text texts ih => exact ih (K.emit text h)

/-- The kind that no writer is of. -/
def none (ω : Type) [Writer ω] : Relays ω where
  are _ := False
  held _ := ""
  emit _ h := h
  drain h := h.elim

end Relays

/-- The default writer keeps nothing, also where its flusher fails. -/
def Buffered.relays (φ : Type) [Flusher φ] : Relays (Buffered φ) where
  are _ := True
  held w := w.held
  emit _ h := h
  drain := by
    intro w _
    show (Buffered.drain w).Always _
    unfold Buffered.drain
    split
    · rename_i hempty
      exact ⟨trivial, String.isEmpty_iff.mp hempty⟩
    · split
      · exact ⟨trivial, rfl⟩
      · exact ⟨trivial, rfl⟩

namespace Registry

variable {ω : Type} [Writer ω] {K : Relays ω} {installed : Prop}

/-! ## Between calls -/

/-- **A registry that a run may start at**: what is pending is messages that pass the write
level, the emitter stands between two of them, and the hot buffer is messages too. Its writer
holds nothing, if it was one of a kind that keeps nothing. -/
structure Stocked (K : Relays ω) (installed : Prop) (r : Registry ω)
    (printed waiting hot : List Message) : Prop where
  free : r.busy = false
  wide : r.IsWide
  hot : r.hot.slots = hot.flatMap Message.slots
  pending : r.pending.slots = (printed ++ waiting).flatMap Message.slots
  passing : ∀ m ∈ printed ++ waiting, m.level.passes r.writeLevel = true
  rests : r.emitter.Rests r.pending waiting
  writer : installed → K.Empty r.writer

/-- **A registry between two calls.** The emitter is idle exactly when nothing is pending, and
then its cursor is at the start. -/
structure Orderly (K : Relays ω) (installed : Prop) (r : Registry ω)
    (printed waiting hot : List Message) : Prop
    extends Stocked K installed r printed waiting hot where
  idle : r.emitter.isIdle = true ↔ printed ++ waiting = []
  start : r.emitter.isIdle = true → r.emitter.cursor = .start

/-- In order, with some messages. -/
def InOrder (K : Relays ω) (installed : Prop) (r : Registry ω) : Prop :=
  ∃ printed waiting hot, r.Orderly K installed printed waiting hot

theorem orderly_new (K : Relays ω) (s : Settings) (w : ω) :
    (Registry.new s w).Orderly K (K.Empty w) [] [] [] where
  free := rfl
  wide := isWide_new s w
  hot := Buffer.slots_empty
  pending := Buffer.slots_empty
  passing := by simp
  rests := ⟨rfl, by rw [new, Emitter.new, Buffer.after_start, Buffer.slots_empty, List.flatMap_nil],
    fun _ => rfl⟩
  writer := id
  idle := by simp [new, Emitter.new, Emitter.isIdle]
  start := fun _ => rfl

/-- A call that starts no run and records nothing changes nothing of this. -/
theorem Orderly.keeps {r s : Registry ω} {printed waiting hot : List Message}
    (h : r.Orderly K installed printed waiting hot) (hkeeps : r.Keeps s) :
    s.Orderly K installed printed waiting hot where
  free := hkeeps.busy.trans h.free
  wide := hkeeps.wide h.wide
  hot := by rw [hkeeps.hot, h.hot]
  pending := by rw [hkeeps.pending, h.pending]
  passing := by
    rw [hkeeps.writeLevel]
    exact h.passing
  rests := by
    rw [hkeeps.emitter, hkeeps.pending]
    exact h.rests
  writer := by
    rw [hkeeps.writer]
    exact h.writer
  idle := by
    rw [hkeeps.emitter]
    exact h.idle
  start := by
    rw [hkeeps.emitter]
    exact h.start

theorem Orderly.settle {r : Registry ω} {printed waiting hot : List Message}
    (h : r.Orderly K installed printed waiting hot) (outcome : Signal) :
    (r.settle outcome).Orderly K installed printed waiting hot where
  free := h.free
  wide := ⟨h.wide.fresh, h.wide.loggers⟩
  hot := h.hot
  pending := h.pending
  passing := h.passing
  rests := h.rests.settle outcome
  writer := h.writer
  idle := (Bool.eq_iff_iff.mp (r.emitter.isIdle_settle outcome)).trans h.idle
  start := fun hidle =>
    (r.emitter.cursor_settle outcome).trans
      (h.start ((r.emitter.isIdle_settle outcome).symm.trans hidle))

/-- A message that is recorded is the last one of the hot buffer. -/
theorem Orderly.record {r : Registry ω} {printed waiting hot : List Message}
    (h : r.Orderly K installed printed waiting hot) (m : Message) :
    ({ r with
        hot := (r.hot.log m.clock m.origin m.level m.format m.args).1
        clock := (r.hot.log m.clock m.origin m.level m.format m.args).2 } : Registry ω).Orderly
      K installed printed waiting (hot ++ [m]) :=
  { h with
    wide := ⟨h.wide.fresh, h.wide.loggers⟩
    hot := by
      show (r.hot.log m.clock m.origin m.level m.format m.args).1.slots = _
      rw [(Buffer.slots_log r.hot m).1, h.hot, List.flatMap_append, List.flatMap_singleton] }

/-- **A log** records one message or none. -/
theorem Orderly.log {r : Registry ω} {printed waiting hot : List Message}
    (h : r.Orderly K installed printed waiting hot) (logger : String) (level : Level)
    (format : String) (args : Arguments) :
    ∃ hot', (r.log logger level format args).Orderly K installed printed waiting hot' := by
  unfold Registry.log
  split
  · split
    · exact ⟨hot, h.keeps (keeps_report r _)⟩
    · rename_i f hf
      rw [if_neg (by simp [h.free])]
      split
      · exact ⟨hot, h⟩
      · exact ⟨_, h.record ⟨r.clock, ⟨r.context, logger⟩, level, f, args⟩⟩
  · exact ⟨hot, h⟩

/-! ## A run -/

/-- **The surroundings of a run that started at `r`**: nothing is changed but the writer, which
stays of its kind and holds nothing after a drain. -/
structure Serving (K : Relays ω) (installed : Prop) (r : Registry ω) (stage : Stage)
    (s : Registry ω) : Prop where
  frame : ({ r with busy := true, writer := s.writer } : Registry ω).Keeps s
  are : installed → K.are s.writer
  held : stage = .drained ∨ stage = .concluded → installed → K.held s.writer = ""

namespace Serving

variable {r s : Registry ω} {stage stage' : Stage}

theorem report (h : Serving K installed r stage s) (d : Diagnostic) :
    Serving K installed r stage (s.report d) :=
  ⟨h.frame.trans (keeps_report s d), h.are, h.held⟩

/-- A stage at which something may be held. -/
theorem relax (h : Serving K installed r stage s) (hdrained : stage' ≠ .drained)
    (hconcluded : stage' ≠ .concluded) : Serving K installed r stage' s :=
  ⟨h.frame, h.are, fun hstage =>
    (hstage.elim (absurd · hdrained) (absurd · hconcluded))⟩

theorem drain (h : Serving K installed r stage s) (stage' : Stage) :
    Serving K installed r stage' (sink.drain s).1 := by
  have hkeeps := Reentry.keeps_run (Writer.drain s.writer) h.frame.busy
  have hwriter : installed → K.are (sink.drain s).1.writer ∧ K.held (sink.drain s).1.writer = "" :=
    fun hi => Reentry.run_always (K.drain (h.are hi)) Registry.report answer s
  exact ⟨(h.frame.trans hkeeps).withWriter _, fun hi => (hwriter hi).1, fun _ hi => (hwriter hi).2⟩

end Serving

theorem tracks_serving (K : Relays ω) (installed : Prop) (style : Style) (r : Registry ω) :
    (sink : Sink (Registry ω)).Tracks style fun stage _ s => Serving K installed r stage s where
  print := by
    intro done s m texts h _
    rw [foldl_emit]
    exact ⟨h.frame.withWriter _, fun hi => K.are_foldl_emit texts (h.are hi), by simp⟩
  pass h _ := h.relax (by simp) (by simp)
  drain h _ := h.drain _
  enter h := h.relax (by simp) (by simp)
  conclude h := h.drain _
  report h := h.report _
  reportLast h := h.report _

/-- What a call leaves behind a drain may be gone on with. -/
theorem Serving.stocked {r s : Registry ω} {stage : Stage} {printed waiting hot : List Message}
    (h : Serving K installed r stage s) (hstage : stage = .drained ∨ stage = .concluded)
    (hr : r.Stocked K installed printed waiting hot) {e : Emitter} {b : Buffer}
    {printed' waiting' : List Message} (hb : b.slots = (printed' ++ waiting').flatMap Message.slots)
    (hpassing : ∀ m ∈ printed' ++ waiting', m.level.passes r.writeLevel = true)
    (hrests : e.Rests b waiting') :
    ({ s with busy := false, emitter := e, pending := b } : Registry ω).Stocked K installed
      printed' waiting' hot where
  free := rfl
  wide := by
    have hwide := h.frame.wide ⟨hr.wide.fresh, hr.wide.loggers⟩
    exact ⟨hwide.fresh, hwide.loggers⟩
  hot := by
    show s.hot.slots = _
    rw [h.frame.hot]
    exact hr.hot
  pending := hb
  passing := by
    have hlevel : s.writeLevel = r.writeLevel := h.frame.writeLevel
    rw [← hlevel] at hpassing
    exact hpassing
  rests := hrests
  writer := fun hi => ⟨h.are hi, h.held hstage hi⟩

/-- The end of a run leaves nothing. -/
theorem Serving.orderly_of_done {r s : Registry ω} {stage : Stage}
    {printed waiting hot : List Message} (h : Serving K installed r stage s)
    (hstage : stage = .drained ∨ stage = .concluded)
    (hr : r.Stocked K installed printed waiting hot) (e : Emitter) (b : Buffer) :
    ({ s with busy := false, emitter := e.rewound, pending := b.clear } : Registry ω).Orderly K
      installed [] [] hot where
  toStocked := h.stocked hstage hr (Buffer.slots_clear b) (by simp) (.rewound e b)
  idle := by simp [Emitter.rewound, Emitter.isIdle]
  start := fun _ => rfl

/-- **A run ends in order**, or stops in order behind a drain. -/
theorem Stocked.run {r : Registry ω} {printed waiting hot : List Message}
    (h : r.Stocked K installed printed waiting hot) (hsome : printed ++ waiting ≠ []) :
    ∃ printed' waiting', r.run.1.Orderly K installed printed' waiting' hot := by
  have hstart : Serving K installed r .drained { r with busy := true } :=
    ⟨Keeps.refl _, fun hi => (h.writer hi).1, fun _ hi => (h.writer hi).2⟩
  have hout := Emitter.resume_outcome (tracks_serving K installed r.emitter.style r) h.rests rfl
    hstart
  unfold Registry.run
  generalize r.emitter.resume sink r.pending { r with busy := true } = resumed at hout
  cases hout with
  -- the call finds its drain outstanding and does nothing at all
  | waiting hwaits =>
    have hsame : ({ r with busy := false } : Registry ω) = r := by rw [← h.free]
    have hidle := Emitter.isIdle_of_isWaiting hwaits
    show ∃ printed' waiting',
      ({ r with busy := false } : Registry ω).Orderly K installed printed' waiting' hot
    rw [hsame]
    exact ⟨printed, waiting, h, by simp [hidle, hsome], by simp [hidle]⟩
  | settled s _ _ hserving =>
    exact ⟨[], [], hserving.orderly_of_done (.inl rfl) h r.emitter r.pending⟩
  | walked resumed _ _ hwalked =>
    cases hwalked with
    | finished s hserving =>
      exact ⟨[], [], hserving.orderly_of_done (.inr rfl) h r.emitter r.pending⟩
    | suspended emitted left c s _ hms hafter hserving =>
      have hsame : (printed ++ emitted) ++ left = printed ++ waiting := by
        rw [hms, List.append_assoc]
      refine ⟨printed ++ emitted, left,
        hserving.stocked (.inl rfl) h ?_ ?_ ⟨?_, hafter, ?_⟩, ?_, ?_⟩
      · rw [hsame, h.pending]
      · rw [hsame]
        exact h.passing
      · exact h.rests.frames
      · simp [Emitter.isConcluding]
      · rw [hsame]
        simp [Emitter.isIdle, hsome]
      · simp [Emitter.isIdle]
    | concluding c s hafter hserving =>
      have hsame : (printed ++ waiting) ++ [] = printed ++ waiting := List.append_nil _
      refine ⟨printed ++ waiting, [], hserving.stocked (.inr rfl) h ?_ ?_ ⟨?_, hafter, ?_⟩, ?_, ?_⟩
      · rw [hsame, h.pending]
      · rw [hsame]
        exact h.passing
      · exact h.rests.frames
      · exact fun _ => rfl
      · rw [hsame]
        simp [Emitter.isIdle, hsome]
      · simp [Emitter.isIdle]

/-! ## A flush and a close -/

/-- Between runs what passes the write level becomes what is pending. -/
theorem Orderly.refill {r : Registry ω} {printed waiting hot : List Message}
    (h : r.Orderly K installed printed waiting hot) (hidle : r.emitter.isIdle = true) :
    r.refill.Stocked K installed [] (r.passing hot) [] ∧
      r.refill.emitter = r.emitter := by
  obtain ⟨rfl, rfl⟩ := List.append_eq_nil_iff.mp (h.idle.mp hidle)
  have hpending : (r.hot.copyRetained r.writeLevel r.pending).slots
      = (r.passing hot).flatMap Message.slots := by
    rw [Buffer.slots_copyRetained h.hot, h.pending]
    rfl
  rw [refill_of_idle hidle]
  refine ⟨⟨h.free, ⟨h.wide.fresh, h.wide.loggers⟩, Buffer.slots_clear r.hot, hpending, ?_,
    ⟨h.rests.frames, ?_, ?_⟩, h.writer⟩, rfl⟩
  · exact fun m hm => (List.mem_filter.mp hm).2
  · show (r.hot.copyRetained r.writeLevel r.pending).after r.emitter.cursor = _
    rw [h.start hidle, Buffer.after_start, hpending]
  · intro hconcludes
    have hproceeds := Emitter.isConcluding_of_isIdle hidle
    exact absurd (hproceeds.symm.trans hconcludes) Bool.false_ne_true

/-- **A flush** keeps a registry in order. -/
theorem Orderly.flush {r : Registry ω} {printed waiting hot : List Message}
    (h : r.Orderly K installed printed waiting hot) : r.flush.1.InOrder K installed := by
  unfold Registry.flush
  rw [if_neg (by simp [h.free])]
  by_cases hidle : r.emitter.isIdle = true
  · obtain ⟨hstocked, hemitter⟩ := h.refill hidle
    have hidle' : r.refill.emitter.isIdle = true := hemitter ▸ hidle
    generalize r.passing hot = ms at hstocked
    by_cases hms : ms = []
    · have hempty : r.refill.pending.isEmpty = true := by
        rw [Buffer.isEmpty_iff_slots, hstocked.pending, hms]
        rfl
      simp only [hidle', hempty, Bool.and_self, if_true]
      exact ⟨[], ms, [], hstocked, by simp [hidle', hms], fun _ => hemitter ▸ h.start hidle⟩
    · have hfull : r.refill.pending.isEmpty = false := by
        rw [← Bool.not_eq_true, Buffer.isEmpty_iff_slots, hstocked.pending]
        exact fun hnil => hms (Message.eq_nil_of_flatMap_slots hnil)
      simp only [hidle', hfull, Bool.and_false, Bool.false_eq_true, if_false]
      obtain ⟨printed', waiting', hrun⟩ := hstocked.run hms
      exact ⟨printed', waiting', [], hrun⟩
  -- a run that is under way is gone on with, and something is pending
  · have hsame : r.refill = r := by rw [Registry.refill, if_neg hidle]
    simp only [hsame, hidle, Bool.false_and, Bool.false_eq_true, if_false]
    obtain ⟨printed', waiting', hrun⟩ := h.toStocked.run (mt h.idle.mpr hidle)
    exact ⟨printed', waiting', hot, hrun⟩

theorem InOrder.flushAll {r : Registry ω} (h : r.InOrder K installed) :
    r.flushAll.1.InOrder K installed := by
  fun_induction Registry.flushAll r with
  | case1 r r' hflush ih =>
    obtain ⟨printed, waiting, hot, h⟩ := h
    have hnext := h.flush
    rw [hflush] at hnext
    exact ih hnext
  | case2 r r' hflush =>
    obtain ⟨printed, waiting, hot, h⟩ := h
    have hnext := h.flush
    rwa [hflush] at hnext
  | case3 r r' hflush =>
    obtain ⟨printed, waiting, hot, h⟩ := h
    have hnext := h.flush
    rwa [hflush] at hnext

/-- **So does a close**, however many runs it takes. -/
theorem Orderly.close {r : Registry ω} {printed waiting hot : List Message}
    (h : r.Orderly K installed printed waiting hot) : r.close.1.InOrder K installed := by
  unfold Registry.close
  rw [if_neg (by simp [h.free])]
  refine InOrder.flushAll ⟨printed, waiting, hot, ?_⟩
  exact { h with wide := ⟨h.wide.fresh, h.wide.loggers⟩ }

/-- **And so does any call.** -/
theorem InOrder.call {r : Registry ω} (h : r.InOrder K installed) (c : Call) :
    (r.call c).1.InOrder K installed := by
  obtain ⟨printed, waiting, hot, h⟩ := h
  cases c with
  | log logger level format args =>
    obtain ⟨hot', h'⟩ := h.log logger level format args
    exact ⟨printed, waiting, hot', h'⟩
  | flush => exact h.flush
  | close => exact h.close
  | _ =>
    exact ⟨printed, waiting, hot,
      h.keeps (keeps_answer fun hlog => absurd hlog (by simp [Call.isLog]))⟩

end Registry

/-! ## Registries in use -/

/-- A registry, and its writer as it was when it was put in. -/
structure Host (ω : Type) where
  registry : Registry ω
  installed : ω

namespace Host

variable {ω : Type} [Writer ω] {K : Relays ω}

def start (s : Settings) (w : ω) : Host ω := ⟨.new s w, w⟩

def access (p : Host ω) (a : Access ω) : Host ω :=
  ⟨p.registry.access a, (p.registry.installs a).getD p.installed⟩

@[simp] theorem registry_access (p : Host ω) (a : Access ω) :
    (p.access a).registry = p.registry.access a := rfl

def run (p : Host ω) (accesses : List (Access ω)) : Host ω := accesses.foldl access p

/-- The registry is in order, with a writer that was put in empty or not. -/
def InOrder (K : Relays ω) (p : Host ω) : Prop := p.registry.InOrder K (K.Empty p.installed)

/-- **Whatever is done with a registry**, it stays in order. -/
theorem InOrder.access {p : Host ω} (h : p.InOrder K) (a : Access ω) : (p.access a).InOrder K := by
  cases a with
  | logger name level =>
    obtain ⟨printed, waiting, hot, h⟩ := h
    exact ⟨printed, waiting, hot, h.keeps (Registry.keeps_logger p.registry name level)⟩
  | call c => exact Registry.InOrder.call h c
  | setWriter w =>
    by_cases hidle : p.registry.emitter.isIdle = true
    · rw [Host.access, Registry.access_of_idle hidle, Registry.installs_of_idle hidle]
      obtain ⟨printed, waiting, hot, h⟩ := h
      exact ⟨printed, waiting, hot,
        { h with wide := ⟨h.wide.fresh, h.wide.loggers⟩, writer := id }⟩
    · rw [Host.access, Registry.access_of_not_idle hidle, Registry.installs_of_not_idle hidle]
      exact h
  | settle outcome =>
    obtain ⟨printed, waiting, hot, h⟩ := h
    exact ⟨printed, waiting, hot, h.settle outcome⟩

theorem InOrder.run {p : Host ω} (h : p.InOrder K) (accesses : List (Access ω)) :
    (p.run accesses).InOrder K := by
  induction accesses generalizing p with
  | nil => exact h
  | cons a accesses ih => exact ih (h.access a)

theorem inOrder_run (K : Relays ω) (s : Settings) (w : ω) (accesses : List (Access ω)) :
    ((start s w).run accesses).InOrder K :=
  InOrder.run ⟨[], [], [], Registry.orderly_new K s w⟩ accesses

/-- **Between two calls a registry is always in order.** Take any settings, any writer and
anything that is done with the registry: loggers are asked for, messages logged, runs started,
suspended and gone on with, drains completed or given up, writers replaced, dumps made, and the
registry closed.

* The emitter is idle exactly when nothing is pending, and it has no frames.
* When it is idle, its cursor is at the start. The writer holds nothing, if it is of a kind that
  keeps nothing over a drain and held nothing when it was put in. The default writer is of such a
  kind, in front of any flusher.
* When it is not, what is pending is messages that pass the write level, and the cursor stands
  between those that are printed and those that are not.
* The hot buffer is messages, and every logger records what is to be written. -/
theorem stays_in_order (s : Settings) (w : ω) (accesses : List (Access ω)) :
    let p := (start s w).run accesses
    let r := p.registry
    (r.emitter.isIdle = true ↔ r.pending.isEmpty = true) ∧
    r.emitter.frames = [] ∧
    (r.emitter.isIdle = true → r.emitter.cursor = .start ∧
      ∀ K : Relays ω, K.Empty p.installed → K.held r.writer = "") ∧
    (∀ (φ : Type) [Flusher φ],
      ∃ K : Relays (Buffered φ), ∀ b, K.held b = b.held ∧ (K.Empty b ↔ b.held = "")) ∧
    (r.emitter.isIdle = false → ∃ printed waiting : List Message,
      r.pending.slots = (printed ++ waiting).flatMap Message.slots ∧
      r.pending.after r.emitter.cursor = waiting.flatMap Message.slots ∧
      ∀ m ∈ printed ++ waiting, m.level.passes r.writeLevel = true) ∧
    (∃ hot : List Message, r.hot.slots = hot.flatMap Message.slots) ∧
    ∀ name, r.writeLevel.passes (r.loggerAt name).memoryLevel = true := by
  intro p r
  -- the kind of the writer matters to the text that it holds and to nothing else
  obtain ⟨printed, waiting, hot, h⟩ := inOrder_run (Relays.none ω) s w accesses
  refine ⟨?_, h.rests.frames, fun hidle => ⟨h.start hidle, fun K hempty => ?_⟩,
    fun φ _ => ⟨Buffered.relays φ, fun b => ⟨rfl, And.right, fun hempty => ⟨trivial, hempty⟩⟩⟩,
    fun _ => ⟨printed, waiting, h.pending, h.rests.after, h.passing⟩, ⟨hot, h.hot⟩, h.wide.loggers⟩
  · rw [h.idle, Buffer.isEmpty_iff_slots, h.pending]
    exact ⟨fun hnone => by rw [hnone, List.flatMap_nil], Message.eq_nil_of_flatMap_slots⟩
  · obtain ⟨_, _, _, h'⟩ := inOrder_run K s w accesses
    exact (h'.writer hempty).2

end Host

end Logbook
