/-
Diagnostics: what the engine reports about itself.

Nothing that goes wrong while messages are recorded or written is an error of the
caller. It is reported as a diagnostic, which has a severity, a fixed wording and
named fields. Each cause is a constructor, and severity, wording and fields are read
off it. Nothing depends on what becomes of a diagnostic once it is reported.
-/
import Logbook.Format.Error
import Logbook.Slot

set_option autoImplicit false

namespace Logbook

/-- Why a registry refuses a request: `LoggerError`. -/
inductive Refusal where
  /-- The logger has a format of that name already. -/
  | duplicateFormat (logger name : String)
  | compile (e : CompileError)
  /-- The writer has to stay until the emission in flight is done. -/
  | emissionInFlight
  deriving DecidableEq, Repr

/-- The wording of a refusal, which a refused format also carries in its diagnostic. -/
def Refusal.message : Refusal → String
  | .duplicateFormat logger name =>
    "logger `" ++ logger ++ "` already defines format `" ++ name ++ "`"
  | .compile e => e.message
  | .emissionInFlight => "cannot replace the writer while an emission is in flight"

/-- **What the engine reports.** -/
inductive Diagnostic where
  | loggerCreated (logger : String) (level : Level)
  /-- A format that was not registered, being there already or not compiling. -/
  | formatRefused (logger : String) (refusal : Refusal)
  /-- A message logged under a format its logger does not have. -/
  | unknownFormat (logger format : String)
  /-- A message logged from inside a drain. -/
  | busyLog (logger format : String)
  /-- A context value set from inside a drain. -/
  | busyContext (logger : String)
  /-- An issue dump asked for from inside a drain. -/
  | busyDump (logger : String)
  /-- A level in the environment that names none. -/
  | levelOverrideIgnored (setting : String) (error : Level.Unknown)
  /-- A slot appended by its tag, where the tag does not say all of it. -/
  | payloadMissing (tag : Tag)
  | flushFailed (error : String)
  /-- A drain that was neither completed nor kept, so that nobody can complete it any more. -/
  | drainDropped
  /-- The buffer ended while so many frames were left. -/
  | endedInsideMessage (depth : Nat)
  | startedInsideMessage (format : String)
  | unclosedBracket
  | strayBracket (shape : Shape)
  /-- A value after the last entry of its format. -/
  | surplusValue (format : String)
  deriving DecidableEq, Repr

/-- The bracket that ends a node, in the text of a message and in a diagnostic. -/
def Shape.closingBracket : Shape → String
  | .record => "\x7d"
  | .sequence => "]"

namespace Diagnostic

/-- How severe a diagnostic is. Those that blame the caller are errors: a request from inside a
drain, and a tag appended without its payload. -/
def severity : Diagnostic → Level
  | .loggerCreated _ _ => .debug
  | .busyLog _ _ | .busyContext _ | .busyDump _ | .payloadMissing _ => .error
  | _ => .warn

/-- The fixed part of the wording. -/
def message : Diagnostic → String
  | .loggerCreated _ _ => "created logger"
  | .formatRefused _ _ => "format not registered"
  | .unknownFormat _ _ => "no such format, message dropped"
  | .busyLog _ _ => "logged while the registry was busy, message dropped"
  | .busyContext _ => "context updated while the registry was busy, ignored"
  | .busyDump _ => "issue dump requested while busy"
  | .levelOverrideIgnored _ _ => "ignoring level override"
  | .payloadMissing _ => "tag needs a payload, nothing appended"
  | .flushFailed _ => "failed to flush rendered log output"
  | .drainDropped => "writer dropped its drain signal without completing it"
  | .endedInsideMessage _ => "log buffer ended inside a message"
  | .startedInsideMessage _ => "message started inside an unfinished message"
  | .unclosedBracket => "unclosed bracket at end of message"
  | .strayBracket _ => "closing bracket without an open one"
  | .surplusValue _ => "more values than the format has entries"

/-- The named fields. A duplicate format names its logger in the wording of the
refusal, any other refused format in a field. -/
def fields : Diagnostic → List (String × String)
  | .loggerCreated logger level => [("logger", logger), ("level", level.label)]
  | .formatRefused _ (.duplicateFormat logger name) =>
    [("error", (Refusal.duplicateFormat logger name).message)]
  | .formatRefused logger refusal => [("logger", logger), ("error", refusal.message)]
  | .unknownFormat logger format => [("logger", logger), ("format", format)]
  | .busyLog logger format => [("logger", logger), ("format", format)]
  | .busyContext logger => [("logger", logger)]
  | .busyDump logger => [("logger", logger)]
  | .levelOverrideIgnored setting error => [("var", setting), ("error", error.message)]
  | .payloadMissing tag => [("tag", tag.label)]
  | .flushFailed error => [("error", error)]
  | .drainDropped => []
  | .endedInsideMessage depth => [("depth", Decimal.intText depth)]
  | .startedInsideMessage format => [("format", format)]
  | .unclosedBracket => []
  | .strayBracket shape => [("bracket", shape.closingBracket)]
  | .surplusValue format => [("format", format)]

end Diagnostic

end Logbook
