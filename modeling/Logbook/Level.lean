/-
How important a message is, and how much of that a buffer or a writer lets
through.

A level is a mask, and each mask contains every narrower one plus one new bit.
The same type is the level a message is logged at and the threshold it is held
against: a message passes a threshold when its mask is contained in the
threshold's. Since the masks are nested, `passes` is a total order and `union`
is its maximum.
-/
import Logbook.Text.Blank

set_option autoImplicit false

namespace Logbook

/-- **The levels**, from the narrowest to the widest. A message of level `off` passes every
threshold, but no logger records it (`Logger.isEnabled`). -/
inductive Level where
  | off
  | fatal
  | error
  | warn
  | info
  | debug
  | trace
  | all
  deriving DecidableEq, Repr, Inhabited

namespace Level

/-- `Level::ALL_LEVELS`, from the narrowest to the widest. -/
def list : List Level :=
  [.off, .fatal, .error, .warn, .info, .debug, .trace, .all]

/-- The bits a level stands for: those of every narrower level and one more. Only `all` adds
two, so that its mask is a whole byte. -/
def mask : Level → Nat
  | .off => 0x00
  | .fatal => 0x01
  | .error => 0x03
  | .warn => 0x07
  | .info => 0x0F
  | .debug => 0x1F
  | .trace => 0x3F
  | .all => 0xFF

/-- The name of a level in messages and in error texts: `Level::label`. -/
def label : Level → String
  | .off => "OFF"
  | .fatal => "FATAL"
  | .error => "ERROR"
  | .warn => "WARN"
  | .info => "INFO"
  | .debug => "DEBUG"
  | .trace => "TRACE"
  | .all => "ALL"

/-- The name of a level inside a described value, such as a described logger. -/
def title : Level → String
  | .off => "Off"
  | .fatal => "Fatal"
  | .error => "Error"
  | .warn => "Warn"
  | .info => "Info"
  | .debug => "Debug"
  | .trace => "Trace"
  | .all => "All"

/-- **A message at `level` passes `threshold`** when the threshold has all of its bits:
`Level::is_enabled_under`, which the recorder, the filter and the loggers all ask. -/
def passes (level threshold : Level) : Bool :=
  level.mask &&& threshold.mask == level.mask

/-- **The wider of two levels**, `Level::union`: the level in effect where a message has to be
recorded for the one and written for the other. -/
def union (a b : Level) : Level :=
  if b.passes a then a else b

/-- The widest level whose messages are compiled in at all, `STATIC_MAX_LEVEL`, as it is when
no feature of the build narrows it. -/
def ceiling : Level := .all

/-! ## Reading a level -/

/-- The names a level can be given by, in capitals. `CORE` is one more name of `warn`. -/
def spellings : List (String × Level) :=
  [("OFF", .off), ("FATAL", .fatal), ("ERROR", .error), ("ERR", .error),
   ("CORE", .warn), ("WARN", .warn), ("WRN", .warn), ("INFO", .info), ("INF", .info),
   ("DEBUG", .debug), ("DBG", .debug), ("TRACE", .trace), ("TRC", .trace), ("ALL", .all)]

/-- A text that names no level, kept as it was given. -/
structure Unknown where
  text : String
  deriving DecidableEq, Repr

/-- The text of a `ParseLevelError`. -/
def Unknown.message (e : Unknown) : String :=
  "unknown level `" ++ e.text ++ "`"

/-- **Reads a level name**, `Level::from_str`. Blanks around it do not count, nor does the case
of its ASCII letters; other letters are not changed. The error has the text as it came, with
its blanks. -/
def parse (s : String) : Except Unknown Level :=
  let name := String.ofList ((Text.trim s.toList).map Char.toUpper)
  match spellings.lookup name with
  | some level => .ok level
  | none => .error ⟨s⟩

end Level

end Logbook
