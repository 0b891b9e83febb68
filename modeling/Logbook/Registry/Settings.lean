/-
What a registry is built from.

The memory level says which messages are recorded, the write level which of them are
written. Every message that is to be written has to be recorded first, so the memory
level in effect is never narrower than the write level. Both may be overridden by the
environment; an override that names no level is reported and ignored.
-/
import Logbook.Context
import Logbook.Diagnostic
import Logbook.Emission.Style
import Logbook.Writer.Buffered

set_option autoImplicit false

namespace Logbook

/-- The settings of a registry, but for its writer: `Config`. -/
structure Settings where
  appName : String
  ipAddr : String
  memoryLevel : Level
  writeLevel : Level
  /-- The threshold of the default writer. -/
  drainThreshold : Nat
  clock : Clock
  style : Style

namespace Settings

/-- The name of the variable that overrides the memory level: `MEMORY_LEVEL_ENV`. -/
def memoryVariable : String := "BLOCKLOG_MEMORY_LEVEL"

/-- The name of the variable that overrides the write level: `WRITE_LEVEL_ENV`. -/
def writeVariable : String := "BLOCKLOG_WRITE_LEVEL"

/-- The settings that hold if nothing else is asked for. -/
def standard (clock : Clock) : Settings :=
  { appName := "app"
    ipAddr := "127.0.0.1"
    memoryLevel := .info
    writeLevel := .warn
    drainThreshold := Buffered.defaultThreshold
    clock := clock
    style := .standard }

/-- The memory level in effect, `effective_memory_level`: wide enough for every message that is
written. -/
def effectiveMemoryLevel (s : Settings) : Level :=
  s.memoryLevel.union s.writeLevel

/-- A level, as the value of a variable overrides it, if the variable has one. -/
def override (current : Level) (name : String) : Option String → Level × List Diagnostic
  | none => (current, [])
  | some text =>
    match Level.parse text with
    | .ok level => (level, [])
    | .error e => (current, [.levelOverrideIgnored name e])

/-- **The settings with the levels of an environment**, given the values of its two
variables: `Config::from_env`. The two levels are overridden each by itself, and which of them
is the wider does not matter here. -/
def fromEnvironment (s : Settings) (memory write : Option String) : Settings × List Diagnostic :=
  let (memoryLevel, ignoredMemory) := override s.memoryLevel memoryVariable memory
  let (writeLevel, ignoredWrite) := override s.writeLevel writeVariable write
  ({ s with memoryLevel := memoryLevel, writeLevel := writeLevel }, ignoredMemory ++ ignoredWrite)

end Settings

end Logbook
