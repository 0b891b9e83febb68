/-
Leaving logs out of a run.

A log that is dropped might as well not have been made. A log whose message does not pass the
write level is recorded, in blocks of the hot buffer that the messages after it then do not get,
and it may be read off a dump; but to the writer it makes no difference, as long as the clock
stands still.

To say so two runs are set side by side. One does everything. The other leaves out some of the
logs in question, whichever one likes, and its writers do not make those calls either that the
drains of the first run make on top. At any time its registry echoes the first one.
-/
import Logbook.Proofs.Registry.DrainCalls
import Logbook.Proofs.Registry.Order
import Logbook.Proofs.Buffer.Reserve

set_option autoImplicit false

namespace Logbook

/-! ## Runs and what they come to -/

/-- **What comes out of something that is done with a registry**: the reply to a call, or a writer
as it is when it is replaced. -/
inductive Outcome (ω : Type) where
  | replied (reply : Reply)
  | replaced (w : ω)
  | refused (why : Refusal)

def Outcome.via {ω ω' : Type} (f : ω → ω') : Outcome ω → Outcome ω'
  | .replied reply => .replied reply
  | .replaced w => .replaced (f w)
  | .refused why => .refused why

/-- All calls but logs have a reply. -/
def Call.hasReply (c : Call) : Bool := !c.isLog

/-- The calls whose reply does not show what is in memory. -/
def Call.hasPlainReply (c : Call) : Bool := !c.isLog && !c.isDump

namespace Host

variable {ω : Type} [Writer ω]

/-- What comes out, if one looks at it. -/
def outcome? (heeds : Call → Bool) (p : Host ω) : Access ω → Option (Outcome ω)
  | .call c => if heeds c then some (.replied (p.registry.call c).2) else none
  | .setWriter w =>
    match p.registry.setWriter w with
    | .ok _ => some (.replaced p.registry.writer)
    | .error why => some (.refused why)
  | .logger _ _ | .settle _ => none

/-- What comes out of a run, in order. -/
def outcomes (heeds : Call → Bool) : Host ω → List (Access ω) → List (Outcome ω)
  | _, [] => []
  | p, a :: rest => (p.outcome? heeds a).toList ++ outcomes heeds (p.access a) rest

/-- **What is left of a run.** Of what is marked to be left out that is left out which is of a
kind, at the time when it is done. -/
def omitting (kind : Registry ω → Access ω → Bool) : Host ω → List (Access ω × Bool) →
    List (Access ω)
  | _, [] => []
  | p, (a, marked) :: rest =>
    if marked && kind p.registry a then omitting kind (p.access a) rest
    else a :: omitting kind (p.access a) rest

end Host

/-! ## Logs that may be left out -/

namespace Registry

variable {ω : Type}

/-- **Whether a log is dropped**: its level is not recorded or off, its format is not known, or
the registry is closed or busy. -/
def drops (r : Registry ω) (logger : String) (level : Level) (format : String) : Bool :=
  !r.isEnabled logger level || !r.hasFormat logger format || r.closed || r.busy

theorem quiet_log_of_drops {r : Registry ω} {logger : String} {level : Level} {format : String}
    (h : r.drops logger level format = true) (args : Arguments) :
    (r.log logger level format args).quiet = r.quiet := by
  unfold log
  by_cases henabled : r.isEnabled logger level = true
  · rw [if_pos henabled]
    cases hformat : (r.loggerAt logger).formats.get? format with
    | none => rfl
    | some f =>
      have hknown : r.hasFormat logger format = true := by
        rw [hasFormat, Named.contains, hformat, Option.isSome_some]
      rw [drops, henabled, hknown] at h
      by_cases hbusy : r.busy = true
      · simp only [hbusy, if_true]
        rfl
      · have hclosed : r.closed = true := by simpa [hbusy] using h
        simp only [hbusy, hclosed, if_true, Bool.false_eq_true, if_false]
  · rw [if_neg henabled]

end Registry

/-- Logs that are dropped. -/
def Access.isDropped {ω : Type} (r : Registry ω) : Access ω → Bool
  | .call (.log name level format _) => r.drops name level format
  | _ => false

/-- Logs of messages that do not pass the write level. -/
def Access.isUnwritten {ω : Type} (r : Registry ω) : Access ω → Bool
  | .call (.log _ level _ _) => !level.passes r.writeLevel
  | _ => false

/-! ## Two runs side by side -/

namespace Host

variable {ω ω' : Type} [Writer ω] [Writer ω'] {L : Likeness} {C : Covering ω ω'}
  {p : Host ω} {p' : Host ω'}

/-- What is done with both registries leaves them alike, and what comes out is alike. -/
theorem echoes_access (h : p.registry.Echoes L C.view p'.registry) {heeds : Call → Bool}
    (hheeds : ∀ c, heeds c = true →
      c.isDump = false ∨ p.registry.busy = true ∨ p.registry.hot = p'.registry.hot)
    (a : Access ω) :
    (p.access a).registry.Echoes L C.view (p'.access (a.via C.view)).registry ∧
      (p.outcome? heeds a).map (.via C.view) = p'.outcome? heeds (a.via C.view) := by
  refine ⟨h.access a, ?_⟩
  cases a with
  | logger name level => rfl
  | call c =>
    simp only [outcome?, Access.via]
    by_cases hc : heeds c = true
    · rw [if_pos hc, if_pos hc, ← (h.call c).2 (hheeds c hc)]
      rfl
    · rw [if_neg hc, if_neg hc]
      rfl
  | setWriter w =>
    simp only [outcome?, Access.via, Registry.setWriter, h.emitter]
    by_cases hidle : p.registry.emitter.isIdle = true
    · simp only [if_pos hidle, h.writer]
      rfl
    · simp only [if_neg hidle]
      rfl
  | settle outcome => rfl

/-- **A run and what is left of it** leave the registries alike, and what comes out is alike. The
induction is on the run: what is left out leaves them alike as well. -/
theorem echoes_run {heeds : Call → Bool} {kind : Registry ω → Access ω → Bool}
    (hheeds : ∀ c, heeds c = true → ∀ {r : Registry ω} {r' : Registry ω'},
      r.Echoes L C.view r' → c.isDump = false ∨ r.busy = true ∨ r.hot = r'.hot)
    (hkind : ∀ {q : Host ω} {a : Access ω}, kind q.registry a = true →
      q.outcome? heeds a = none ∧ ∀ {r' : Registry ω'}, q.registry.Echoes L C.view r' →
        (q.access a).registry.Echoes L C.view r')
    (h : p.registry.Echoes L C.view p'.registry) (marked : List (Access ω × Bool)) :
    let left := (p.omitting kind marked).map (.via C.view)
    (p.run (marked.map Prod.fst)).registry.Echoes L C.view (p'.run left).registry ∧
      (p.outcomes heeds (marked.map Prod.fst)).map (.via C.view) = p'.outcomes heeds left := by
  induction marked generalizing p p' with
  | nil => exact ⟨h, rfl⟩
  | cons entry rest ih =>
    obtain ⟨a, mark⟩ := entry
    simp only [List.map_cons, omitting, outcomes, List.map_append]
    by_cases hleft : (mark && kind p.registry a) = true
    · obtain ⟨houtcome, hskip⟩ := hkind (Bool.and_eq_true_iff.mp hleft).2
      rw [if_pos hleft, houtcome]
      exact ih (hskip h)
    · obtain ⟨hecho, houtcome⟩ := echoes_access h (fun c hc => hheeds c hc h) a
      obtain ⟨hrun, houtcomes⟩ := ih hecho
      rw [if_neg hleft, List.map_cons]
      refine ⟨hrun, ?_⟩
      rw [outcomes, ← houtcome, ← houtcomes]
      cases p.outcome? heeds a <;> rfl

end Host

/-! ## Memories with the same messages to write -/

namespace Clock

/-- A clock that shows the same time at every reading. -/
def Still (t : Instant) (c : Clock) : Prop := ∀ n, c.reading n = t

theorem still_fixed (t : Instant) : (fixed t).Still t := fun _ => rfl

end Clock

/-- By clocks that stand still at the same time a directive prints the same. -/
theorem Directive.slots_of_still {t : Instant} {c c' : Clock} (h : c.Still t) (h' : c'.Still t)
    (d : Directive) (origin : Origin) (f : Format) (args : Arguments) :
    (d.slots c origin f args).1 = (d.slots c' origin f args).1 := by
  cases d with
  | literal _ => rfl
  | expando e =>
    cases e with
    | wallTime =>
      show [Slot.scalar (.time (c.reading c.taken))] = [Slot.scalar (.time (c'.reading c'.taken))]
      rw [h, h']
    | _ => rfl
  | scalar kind i => rfl
  | general i =>
    simp only [slots]
    cases args.values[i]? <;> rfl
  | compound shape i bounds =>
    simp only [slots]
    rcases args.values[i]? with _ | s | _ | r
    · rfl
    · rfl
    · rfl
    · by_cases hshape : r.shape = shape <;> simp [hshape]

namespace Message

/-- The message by another clock. -/
def clocked (m : Message) (c : Clock) : Message := { m with clock := c }

theorem body_clocked (m : Message) (c₀ c : Clock) (es : List Entry) :
    (m.clocked c₀).body c es = m.body c es := by
  induction es generalizing c with
  | nil => rfl
  | cons e es ih =>
    rw [body, body]
    simp only [ih]
    rfl

theorem body_of_still {t : Instant} {c c' : Clock} (h : c.Still t) (h' : c'.Still t)
    (m : Message) (es : List Entry) :
    (m.body c es).1 = (m.body c' es).1 ∧ (m.body c es).2.Still t := by
  induction es generalizing c c' with
  | nil => exact ⟨rfl, h⟩
  | cons e es ih =>
    have hstays : ∀ {c : Clock}, c.Still t →
        (e.directive.slots c m.origin m.format m.args).2.Still t := by
      intro c hc
      rw [Directive.clock_slots]
      exact hc
    obtain ⟨hrest, hclock⟩ := ih (hstays h) (hstays h')
    simp only [body]
    rw [e.directive.slots_of_still h h', hrest]
    exact ⟨rfl, hclock⟩

/-- **A message by another clock** that shows the same time is the same, slot by slot. -/
theorem slots_clocked {t : Instant} {m : Message} {c : Clock} (h : m.clock.Still t)
    (h' : c.Still t) : (m.clocked c).slots = m.slots := by
  have hbody : ((m.clocked c).body c m.format.entries).1 = (m.body m.clock m.format.entries).1 := by
    rw [body_clocked]
    exact (body_of_still h' h m m.format.entries).1
  show (Slot.format m.format :: .level m.level :: ((m.clocked c).body c m.format.entries).1)
    ++ [.finish] = _
  rw [hbody]
  rfl

end Message

/-- **A memory of messages**: its hot buffer is these messages, and its clock stands still. -/
def Recalls (t : Instant) (m : Buffer × Clock) (ms : List Message) : Prop :=
  m.2.Still t ∧ m.1.slots = ms.flatMap Message.slots

theorem Recalls.log {t : Instant} {m : Buffer × Clock} {ms : List Message} (h : Recalls t m ms)
    (origin : Origin) (l : Level) (f : Format) (args : Arguments) :
    Recalls t (m.1.log m.2 origin l f args) (ms ++ [⟨m.2, origin, l, f, args⟩]) := by
  obtain ⟨hslots, hclock⟩ := Buffer.slots_log m.1 ⟨m.2, origin, l, f, args⟩
  refine ⟨?_, ?_⟩
  · show (m.1.log m.2 origin l f args).2.Still t
    rw [hclock]
    exact (Message.body_of_still h.1 h.1 _ f.entries).2
  · rw [hslots, h.2, List.flatMap_append, List.flatMap_singleton]

namespace Message

/-- The slots of the messages that pass a level. -/
def written (level : Level) (ms : List Message) : List Slot :=
  (ms.filter (·.level.passes level)).flatMap slots

theorem written_append (level : Level) (ms ms' : List Message) :
    written level (ms ++ ms') = written level ms ++ written level ms' := by
  rw [written, List.filter_append, List.flatMap_append, written, written]

theorem written_singleton (level : Level) (m : Message) :
    written level [m] = if m.level.passes level then m.slots else [] := by
  by_cases hpasses : m.level.passes level = true
  · simp [written, hpasses]
  · simp [written, hpasses]

end Message

/-- **Memories with the same messages to write**, by clocks that stand still. How many other
messages stand between these, and in which blocks, is left open. -/
def Likeness.written (level : Level) (t : Instant) : Likeness where
  level := level
  alike m m' := ∃ ms ms', Recalls t m ms ∧ Recalls t m' ms' ∧
    Message.written level ms = Message.written level ms'
  copy := by
    rintro m m' ⟨ms, ms', h, h', hsame⟩ target
    rw [Buffer.copyRetained, Buffer.copyRetained, h.2, h'.2, retained_messages, retained_messages]
    exact congrArg target.appendAll hsame
  clear := by
    rintro m m' ⟨ms, ms', h, h', -⟩
    exact ⟨[], [], ⟨h.1, Buffer.slots_clear m.1⟩, ⟨h'.1, Buffer.slots_clear m'.1⟩, rfl⟩
  log := by
    rintro m m' ⟨ms, ms', h, h', hsame⟩ origin l f args
    refine ⟨_, _, h.log origin l f args, h'.log origin l f args, ?_⟩
    -- the two messages differ in their clocks only, and these show the same time
    have hslots : (Message.mk m'.2 origin l f args).slots
        = (Message.mk m.2 origin l f args).slots :=
      Message.slots_clocked (m := ⟨m.2, origin, l, f, args⟩) h.1 h'.1
    rw [Message.written_append, Message.written_append, hsame, Message.written_singleton,
      Message.written_singleton, hslots]

/-! ## What may be left out -/

namespace Access

variable {ω : Type}

theorem eq_log_of_isDropped {r : Registry ω} {a : Access ω} (h : a.isDropped r = true) :
    ∃ name level format args, a = .call (.log name level format args) ∧
      r.drops name level format = true := by
  unfold isDropped at h
  split at h
  · exact ⟨_, _, _, _, rfl, h⟩
  · simp at h

theorem eq_log_of_isUnwritten {r : Registry ω} {a : Access ω} (h : a.isUnwritten r = true) :
    ∃ name level format args, a = .call (.log name level format args) ∧
      level.passes r.writeLevel = false := by
  unfold isUnwritten at h
  split at h
  · exact ⟨_, _, _, _, rfl, by simpa using h⟩
  · simp at h

end Access

/-- **A log that is not written** leaves the same messages to write. -/
theorem Registry.Echoes.log_unwritten {ω ω' : Type} {f : ω → ω'} {r : Registry ω}
    {r' : Registry ω'} {writeLevel : Level} {t : Instant}
    (h : r.Echoes (.written writeLevel t) f r') {level : Level}
    (hlevel : level.passes r.writeLevel = false) (logger format : String) (args : Arguments) :
    (r.log logger level format args).Echoes (.written writeLevel t) f r' := by
  cases h with
  | intro m reports hwrite hm =>
    unfold Registry.log
    split
    · cases (r.loggerAt logger).formats.get? format with
      | none => exact .intro (r.report _) m reports hwrite hm
      | some format' =>
        simp only
        split
        · exact .intro (r.report _) m reports hwrite hm
        · split
          · exact .intro r m reports hwrite hm
          · obtain ⟨ms, ms', h, h', hsame⟩ := hm
            refine .intro { r with
              hot := (r.hot.log r.clock ⟨r.context, logger⟩ level format' args).1
              clock := (r.hot.log r.clock ⟨r.context, logger⟩ level format' args).2 } m reports
              hwrite ⟨_, ms', h.log ⟨r.context, logger⟩ level format' args, h', ?_⟩
            have hwrite' : r.writeLevel = writeLevel := hwrite
            rw [hwrite'] at hlevel
            rw [Message.written_append, Message.written_singleton, hlevel, ← hsame]
            exact List.append_nil _
    · exact .intro r m reports hwrite hm

namespace Host

variable {ω : Type} [Writer ω]

theorem skip_dropped {ω' : Type} {L : Likeness} {f : ω → ω'} {p : Host ω} {a : Access ω}
    (h : a.isDropped p.registry = true) :
    p.outcome? Call.hasReply a = none ∧ ∀ {r' : Registry ω'},
      p.registry.Echoes L f r' → (p.access a).registry.Echoes L f r' := by
  obtain ⟨name, level, format, args, rfl, hdrops⟩ := Access.eq_log_of_isDropped h
  refine ⟨rfl, fun hecho => ?_⟩
  apply hecho.of_quiet
  exact Registry.quiet_log_of_drops hdrops args

theorem skip_unwritten {ω' : Type} {f : ω → ω'} {writeLevel : Level} {t : Instant} {p : Host ω}
    {a : Access ω} (h : a.isUnwritten p.registry = true) :
    p.outcome? Call.hasPlainReply a = none ∧ ∀ {r' : Registry ω'},
      p.registry.Echoes (.written writeLevel t) f r' →
        (p.access a).registry.Echoes (.written writeLevel t) f r' := by
  obtain ⟨name, level, format, args, rfl, hlevel⟩ := Access.eq_log_of_isUnwritten h
  exact ⟨rfl, fun hecho => hecho.log_unwritten hlevel name format args⟩

/-- **A log that is not written leaves no trace.** Take any settings, any writers, with any calls
on top in their drains, and anything that is done with a registry. Leave those calls out, and some
of the logs, whichever are marked.

* If logs are left out that are dropped, then nothing is different: the registry is in the same
  state, but for what it reports, so its clock was read as often. Every other call has the same
  reply. Every writer was handed the same chunks, be it in use still or replaced.
* If logs are left out that do not pass the write level, by a clock that stands still, then the
  same is waiting to be written at the same place. Every writer was handed the same chunks, and
  every other call but a dump has the same reply. -/
theorem unwritten_logs_leave_no_trace (s : Settings) (t : Instant) (w : Interrupted (Chunked ω))
    (marked : List (Access (Interrupted (Chunked ω)) × Bool)) :
    let accesses := marked.map Prod.fst
    (let p := start s w
     let left := (p.omitting Access.isDropped marked).map (.via Interrupted.inner)
     let q := start s w.inner
     (p.run accesses).registry.calm = (q.run left).registry.quiet ∧
     (p.outcomes Call.hasReply accesses).map (.via Interrupted.inner)
        = q.outcomes Call.hasReply left) ∧
    (let p := start { s with clock := .fixed t } w
     let left := (p.omitting Access.isUnwritten marked).map (.via Interrupted.inner)
     let q := start { s with clock := .fixed t } w.inner
     (p.run accesses).registry.pending = (q.run left).registry.pending ∧
     (p.run accesses).registry.emitter = (q.run left).registry.emitter ∧
     (p.run accesses).registry.writer.inner = (q.run left).registry.writer ∧
     (p.outcomes Call.hasPlainReply accesses).map (.via Interrupted.inner)
        = q.outcomes Call.hasPlainReply left) := by
  intro accesses
  refine ⟨?_, ?_⟩
  · intro p left q
    have hstart : p.registry.Echoes (.exact s.writeLevel)
        (Interrupted.covering (Chunked ω)).view q.registry :=
      .intro p.registry (.empty, s.clock) #[] rfl rfl
    obtain ⟨hecho, houtcomes⟩ := echoes_run (fun c _ _ _ h => .inr (.inr h.hot_eq))
      skip_dropped hstart marked
    exact ⟨hecho.quiet_eq, houtcomes⟩
  · intro p left q
    have hstart : p.registry.Echoes (.written s.writeLevel t)
        (Interrupted.covering (Chunked ω)).view q.registry :=
      .intro p.registry (.empty, .fixed t) #[] rfl
        ⟨[], [], ⟨Clock.still_fixed t, Buffer.slots_empty⟩,
          ⟨Clock.still_fixed t, Buffer.slots_empty⟩, rfl⟩
    have hplain : ∀ c : Call, c.hasPlainReply = true → c.isDump = false := by
      intro c hc
      rw [Call.hasPlainReply, Bool.and_eq_true] at hc
      simpa using hc.2
    obtain ⟨hecho, houtcomes⟩ := echoes_run (fun c hc _ _ _ => .inl (hplain c hc))
      skip_unwritten hstart marked
    exact ⟨hecho.pending.symm, hecho.emitter.symm, hecho.writer.symm, houtcomes⟩

end Host

end Logbook
