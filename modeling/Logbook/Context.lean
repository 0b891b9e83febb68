/-
Where the expandos of a message get their values.

The context of a registry is shared by all its loggers: names of the application and
its address, a counter, and two numbers that the application sets. A message adds the
name of its module and a reading of the clock. Readings of a clock are numbered; each
reading takes the next one, so a clock is a sequence of instants and a count of those
that were taken.
-/
import Logbook.Format.Basic

set_option autoImplicit false

namespace Logbook

/-- **What every logger of a registry shares**, `GlobalContext`.

The logical time is a counter that starts at zero and that only a tick moves on, by one. It is a
number without bound here. The counter it stands for has 64 bits, and since a registry is used
by one thread that ticks once per call, passing its end would take `2 ^ 64` calls, more than five
hundred years at one every nanosecond. From `2 ^ 63 - 1` on `Expando.value` shows the same number
for every time anyway. -/
structure Context where
  appName : String
  ipAddr : String
  logicalTime : Nat
  requestId : Int
  callbackId : Int
  deriving DecidableEq, Repr

/-- A context in which nothing was set yet, `GlobalContext::new`. Neither id is known, which is
`-1`. -/
def Context.new (appName ipAddr : String) : Context :=
  { appName := appName, ipAddr := ipAddr, logicalTime := 0, requestId := -1, callbackId := -1 }

/-- **A source of instants**, `Clock`. What a clock answers may be anything, also an instant
before the last one; the count says which answer is next. -/
structure Clock where
  reading : Nat → Instant
  taken : Nat

namespace Clock

/-- **Reads the clock**, `Clock::now`: the next reading is taken. -/
def read (c : Clock) : Instant × Clock :=
  (c.reading c.taken, { c with taken := c.taken + 1 })

/-- A clock that starts at an instant and moves on by `step` nanoseconds after every
reading. -/
def stepping (start : Instant) (step : Int) : Clock :=
  ⟨fun n => start.advance (n * step), 0⟩

/-- A clock that stands still, `FixedClock`. -/
def fixed (t : Instant) : Clock := ⟨fun _ => t, 0⟩

end Clock

/-- Where a message comes from: the shared context and the name of the logger, which is what
`#module_name` shows. With a clock this is `MacroContext`. -/
structure Origin where
  context : Context
  moduleName : String
  deriving DecidableEq, Repr

/-- The largest number a signed word holds. -/
def Number.largest : Nat := Nat.pow 2 63 - 1

/-- **The value of an expando**, `expando_value`, given the time it would show. A logical time
that does not fit a signed word is shown as the largest that does. -/
def Expando.value (e : Expando) (origin : Origin) (f : Format) (time : Instant) : Scalar :=
  match e with
  | .ipAddr => .text origin.context.ipAddr
  | .appName => .text origin.context.appName
  | .moduleName => .text origin.moduleName
  | .msgName => .text f.name
  | .wallTime => .time time
  | .logicalTime => .number (.int (min origin.context.logicalTime Number.largest))
  | .callbackId => .number (.int origin.context.callbackId)
  | .requestId => .number (.int origin.context.requestId)

end Logbook
