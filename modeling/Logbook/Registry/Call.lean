/-
Calls to a registry and the replies they get.

A call is what one can ask of a registry through a logger at any time, also while the
registry is draining its writer. As values, calls can be put in sequence, and a writer
can say which it makes from inside a drain.
-/
import Logbook.Buffer.Message
import Logbook.Format.Layout
import Logbook.Registry.Dump

set_option autoImplicit false

namespace Logbook

/-- What a format is compiled from: `Logger::add_format` takes a template,
`Logger::add_layout_format` a layout. -/
inductive Source where
  | template (text : String)
  | layout (heap : Heap) (v : Value)

/-- Compiles a format under the name it is to have. -/
def Source.compile (name : String) : Source → Except CompileError Format
  | .template text => Format.compile name text.toList
  | .layout heap v => Format.ofLayout name heap v

/-- **What a flush or a close comes to**, `FlushResult`. -/
inductive FlushResult where
  /-- The run is finished. For a close, everything is written. -/
  | done
  /-- `FlushError::Empty`: there was nothing to write and no run to go on with. -/
  | empty
  /-- `FlushError::DrainPending`: a drain is outstanding. -/
  | pending
  deriving DecidableEq, Repr

/-- **A request to a registry**, by the name of the logger that makes it. Asking for a logger and
replacing the writer are not among them: neither can be done at all while a drain has the
registry. -/
inductive Call where
  | log (logger : String) (level : Level) (format : String) (args : Arguments)
  | register (logger name : String) (source : Source)
  | registerAll (logger : String) (formats : List (String × String))
  | hasFormat (logger name : String)
  | isEnabled (logger : String) (level : Level)
  | memoryLevel (logger : String)
  | describe
  | describeLogger (logger : String)
  | tick (logger : String)
  | setRequestId (logger : String) (id : Int)
  | setCallbackId (logger : String) (id : Int)
  | dump (logger : String)
  | flush
  | close

/-- **What a call is answered.** -/
inductive Reply where
  | none
  /-- Why a format was not registered, and nothing if it was. -/
  | registered (refusal : Option Refusal)
  | flag (b : Bool)
  | level (l : Level)
  | text (s : String)
  | dump (d : Option Dump)
  | flushed (r : FlushResult)

end Logbook
