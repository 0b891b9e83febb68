/-
Registries: named loggers that share a buffer and a writer.

A registry records what its loggers log in a hot buffer. What is to be written is moved
to a pending buffer, and an emitter renders that to the writer. While the writer is being
drained the registry is busy: messages and context values that come then are reported and
ignored, a flush or a close has to be asked for again later, and a dump is not made.
Formats are not part of what a drain works on, so they can be registered at any time.

A logger is known by its name. A name that no logger has stands for a logger as it would
be created.

This is `LoggerRegistry` with its `Logger` handles. All of them share one cell with the state
of the registry, and `busy` says that the cell is borrowed, as it is while an emission runs.
-/
import Logbook.Registry.Settings
import Logbook.Text.Described

set_option autoImplicit false

namespace Logbook

/-- What belongs to one name: `LoggerState`. A handle reaches it without the cell that a drain
borrows, so formats can be looked up and registered in the meantime. -/
structure Logger where
  memoryLevel : Level
  formats : Named Format

namespace Logger

/-- **Whether a message at a level is recorded**, `Logger::is_enabled`. None is at the level off. -/
def isEnabled (l : Logger) (level : Level) : Bool :=
  level != .off && level.passes l.memoryLevel

end Logger

/-- **A registry** with a writer of type `ω`: `Shared`, with what has been reported so far. -/
structure Registry (ω : Type) where
  context : Context
  clock : Clock
  /-- Messages since the last flush. -/
  hot : Buffer
  /-- Messages of the run that is under way. -/
  pending : Buffer
  emitter : Emitter
  writer : ω
  writeLevel : Level
  /-- The memory level of a logger that is created without one. -/
  memoryLevel : Level
  loggers : Named Logger
  /-- Nothing is recorded any more. -/
  closed : Bool
  /-- The writer is being drained. -/
  busy : Bool
  reports : Array Diagnostic

namespace Registry

variable {ω : Type}

/-- `LoggerRegistry::new`: no logger, nothing recorded, no run. -/
def new (s : Settings) (writer : ω) : Registry ω :=
  { context := .new s.appName s.ipAddr
    clock := s.clock
    hot := .empty
    pending := .empty
    emitter := .new s.style
    writer := writer
    writeLevel := s.writeLevel
    memoryLevel := s.effectiveMemoryLevel
    loggers := .empty
    closed := false
    busy := false
    reports := #[] }

/-- Takes a report. -/
def report (r : Registry ω) (d : Diagnostic) : Registry ω :=
  { r with reports := r.reports.push d }

/-- The reports so far, which are then forgotten. -/
def takeReports (r : Registry ω) : List Diagnostic × Registry ω :=
  (r.reports.toList, { r with reports := #[] })

/-! ## Loggers -/

/-- The logger of a name, as it is or as it would be created. -/
def loggerAt (r : Registry ω) (name : String) : Logger :=
  (r.loggers.get? name).getD ⟨r.memoryLevel, .empty⟩

/-- **Asks for a logger**, `get_or_create`. One that is there gets the given memory level, if any;
one that is not is created, at that level or at the registry's. A given level is widened to
the write level; the registry's is as wide already. -/
def logger (r : Registry ω) (name : String) (level : Option Level) : Registry ω :=
  let level := level.map (·.union r.writeLevel)
  match r.loggers.get? name with
  | some l =>
    -- its formats stay
    { r with loggers := r.loggers.insert name { l with memoryLevel := level.getD l.memoryLevel } }
  | none =>
    let l : Logger := ⟨level.getD r.memoryLevel, .empty⟩
    { r with loggers := r.loggers.insert name l }.report (.loggerCreated name l.memoryLevel)

/-- The name of the logger that stands for the application. -/
def rootName (r : Registry ω) : String := r.context.appName

/-- Whether the logger of a name records a level. -/
def isEnabled (r : Registry ω) (name : String) (level : Level) : Bool :=
  (r.loggerAt name).isEnabled level

/-! ## Formats -/

/-- `Logger::has_format`. -/
def hasFormat (r : Registry ω) (logger name : String) : Bool :=
  (r.loggerAt logger).formats.contains name

/-- Enters a format, whatever is there. Asking whether the name is free is up to `register`. -/
def addFormat (r : Registry ω) (logger name : String) (f : Format) : Registry ω :=
  let l := r.loggerAt logger
  { r with loggers := r.loggers.insert logger { l with formats := l.formats.insert name f } }

/-- **Registers a format**, `Logger::register`. A name that is taken is refused before the source
is looked at, and what is refused is reported and changes nothing. -/
def register (r : Registry ω) (logger name : String) (source : Source) :
    Registry ω × Option Refusal :=
  if r.hasFormat logger name then
    let refusal := Refusal.duplicateFormat logger name
    (r.report (.formatRefused logger refusal), some refusal)
  else
    match source.compile name with
    | .ok f => (r.addFormat logger name f, none)
    | .error e => (r.report (.formatRefused logger (.compile e)), some (.compile e))

/-- Registers templates up to the first that is refused: `Logger::add_formats`. Those before it
stay. -/
def registerAll (r : Registry ω) (logger : String) :
    List (String × String) → Registry ω × Option Refusal
  | [] => (r, none)
  | (name, text) :: rest =>
    match r.register logger name (.template text) with
    | (r, none) => r.registerAll logger rest
    | refused => refused

/-! ## Recording -/

/-- **Logs a message**, `Logger::log`. It is dropped in silence if its level is not recorded or the
registry is closed, and with a report if its format is not known or the registry is
busy. -/
def log (r : Registry ω) (logger : String) (level : Level) (format : String) (args : Arguments) :
    Registry ω :=
  if r.isEnabled logger level then
    -- the format is looked up before the registry is: an unknown one is reported in any case
    match (r.loggerAt logger).formats.get? format with
    | none => r.report (.unknownFormat logger format)
    | some f =>
      if r.busy then r.report (.busyLog logger format)
      else if r.closed then r
      else
        let (hot, clock) := r.hot.log r.clock ⟨r.context, logger⟩ level f args
        { r with hot := hot, clock := clock }
  else
    r

/-- Changes the context, unless the registry is busy: `with_globals`. -/
def modifyContext (r : Registry ω) (logger : String) (f : Context → Context) : Registry ω :=
  if r.busy then r.report (.busyContext logger) else { r with context := f r.context }

/-- Starts a dump of all messages in memory, in the style of the registry, unless it is busy.
`Dump.request` goes on from here. -/
def dump (r : Registry ω) (logger : String) : Registry ω × Option Dump :=
  if r.busy then (r.report (.busyDump logger), none)
  else (r, some (.ofBuffer r.emitter.style r.hot))

/-! ## The writer -/

/-- Replaces the writer, between runs only: `LoggerRegistry::set_writer`. Text that
the old one still holds goes with it. -/
def setWriter (r : Registry ω) (writer : ω) : Except Refusal (Registry ω) :=
  if r.emitter.isIdle then .ok { r with writer := writer } else .error .emissionInFlight

/-- The drain the registry waits for comes to an end. -/
def settle (r : Registry ω) (outcome : Signal) : Registry ω :=
  { r with emitter := r.emitter.settle outcome }

/-! ## Descriptions -/

/-- A registry as it is shown for debugging. -/
def describe (r : Registry ω) : String :=
  "LoggerRegistry \x7b app_name: " ++ Text.described r.rootName ++ ", .. \x7d"

/-- A logger as it is shown for debugging. -/
def describeLogger (r : Registry ω) (name : String) : String :=
  "Logger \x7b name: " ++ Text.described name ++ ", memory_level: "
    ++ (r.loggerAt name).memoryLevel.title ++ " \x7d"

/-! ## Calls -/

/-- **The reply to a call that starts no run.** That is any call but a flush or a close;
those two are answered as they are while the registry is busy: a drain is
outstanding. -/
def answer (r : Registry ω) : Call → Registry ω × Reply
  | .log logger level format args => (r.log logger level format args, .none)
  | .register logger name source =>
    let (r, refusal) := r.register logger name source
    (r, .registered refusal)
  | .registerAll logger formats =>
    let (r, refusal) := r.registerAll logger formats
    (r, .registered refusal)
  | .hasFormat logger name => (r, .flag (r.hasFormat logger name))
  | .isEnabled logger level => (r, .flag (r.isEnabled logger level))
  | .memoryLevel logger => (r, .level (r.loggerAt logger).memoryLevel)
  | .describe => (r, .text r.describe)
  | .describeLogger logger => (r, .text (r.describeLogger logger))
  | .tick logger =>
    -- the only change of the logical time, see `Context` for its range
    (r.modifyContext logger fun c => { c with logicalTime := c.logicalTime + 1 }, .none)
  | .setRequestId logger id => (r.modifyContext logger fun c => { c with requestId := id }, .none)
  | .setCallbackId logger id =>
    (r.modifyContext logger fun c => { c with callbackId := id }, .none)
  | .dump logger =>
    let (r, d) := r.dump logger
    (r, .dump d)
  | .flush | .close => (r, .flushed .pending)

/-! ## Dumps -/

theorem answer_dump_of_busy {r : Registry ω} (hbusy : r.busy = true) (logger : String) :
    r.answer (.dump logger) = (r.report (.busyDump logger), .dump none) := by
  rw [answer, dump, if_pos hbusy]

theorem answer_dump_of_free {r : Registry ω} (hfree : r.busy = false) (logger : String) :
    r.answer (.dump logger) = (r, .dump (some (.ofBuffer r.emitter.style r.hot))) := by
  rw [answer, dump, if_neg (by simp [hfree])]

end Registry

namespace Dump

variable {σ : Type}

/-- **Asks a registry for a dump and writes it** into a writer of its own, as far as that takes
it: `emit_on_issue_notify`. What is handed back is the rest of the dump if a drain is
outstanding, and nothing if it is done or was refused.

The surroundings are those of the dump. They hold its writer, and the registry that is asked:
that is free again when the dump is written, so the drains of that writer may call it as well. -/
def request (k : Sink σ) (ask : σ → Call → σ × Reply) (logger : String) (s : σ) :
    Option Dump × σ :=
  match ask s (.dump logger) with
  | (s, .dump (some d)) => d.write k s
  | (s, _) => (none, s)

theorem request_of_made {k : Sink σ} {ask : σ → Call → σ × Reply} {logger : String} {s s' : σ}
    {d : Dump} (h : ask s (.dump logger) = (s', .dump (some d))) :
    request k ask logger s = d.write k s' := by
  rw [request, h]

/-- A dump that is refused is not written. -/
theorem request_of_refused {k : Sink σ} {ask : σ → Call → σ × Reply} {logger : String} {s s' : σ}
    (h : ask s (.dump logger) = (s', .dump none)) : request k ask logger s = (none, s') := by
  rw [request, h]

end Dump

namespace Registry

variable {ω : Type}

/-! ## What a busy registry keeps -/

/-- A registration leaves what was recorded as it is. -/
theorem register_keeps (r : Registry ω) (logger name : String) (source : Source) :
    (r.register logger name source).1.busy = r.busy ∧
      (r.register logger name source).1.hot = r.hot := by
  unfold register
  split
  · exact ⟨rfl, rfl⟩
  · split <;> exact ⟨rfl, rfl⟩

theorem registerAll_keeps (r : Registry ω) (logger : String) (formats : List (String × String)) :
    (r.registerAll logger formats).1.busy = r.busy ∧
      (r.registerAll logger formats).1.hot = r.hot := by
  induction formats generalizing r with
  | nil => exact ⟨rfl, rfl⟩
  | cons entry rest ih =>
    obtain ⟨name, text⟩ := entry
    have h := register_keeps r logger name (.template text)
    unfold registerAll
    split
    · rename_i r' heq
      rw [heq] at h
      obtain ⟨hb, hh⟩ := ih r'
      exact ⟨hb.trans h.1, hh.trans h.2⟩
    · exact h

/-- **A call to a busy registry leaves what it has recorded as it is**, and the registry
stays busy. -/
theorem answer_keeps {r : Registry ω} (hbusy : r.busy = true) (c : Call) :
    (r.answer c).1.busy = true ∧ (r.answer c).1.hot = r.hot := by
  cases c with
  | log logger level format args =>
    simp only [answer, log]
    split
    · split
      · exact ⟨hbusy, rfl⟩
      · simp [hbusy, report]
    · exact ⟨hbusy, rfl⟩
  | register logger name source =>
    obtain ⟨hb, hh⟩ := register_keeps r logger name source
    exact ⟨hb.trans hbusy, hh⟩
  | registerAll logger formats =>
    obtain ⟨hb, hh⟩ := registerAll_keeps r logger formats
    exact ⟨hb.trans hbusy, hh⟩
  | tick logger => simp [answer, modifyContext, hbusy, report]
  | setRequestId logger id => simp [answer, modifyContext, hbusy, report]
  | setCallbackId logger id => simp [answer, modifyContext, hbusy, report]
  | dump logger => simp [answer, dump, hbusy, report]
  | hasFormat | isEnabled | memoryLevel | describe | describeLogger | flush | close => exact ⟨hbusy, rfl⟩

theorem drain_keeps {α : Type} (p : Reentry α) {r : Registry ω} (hbusy : r.busy = true) :
    (p.run report answer r).1.busy = true ∧ (p.run report answer r).1.hot = r.hot := by
  induction p generalizing r with
  | done a => exact ⟨hbusy, rfl⟩
  | report d next ih => exact ih (r := r.report d) hbusy
  | call c next ih =>
    obtain ⟨hb, hh⟩ := answer_keeps hbusy c
    obtain ⟨hb', hh'⟩ := ih (r.answer c).2 hb
    exact ⟨hb', hh'.trans hh⟩

end Registry

end Logbook
