/-
Recording a message.

A message is appended as its format, its level, what each directive prints, and an
end. Nothing in here fails: a marker stands for an argument that is missing or of the
wrong kind. A directive that takes one slot at most is resolved without looking at the
buffer, so when all directives of a format are of that sort the number of slots is
known beforehand; room for them is then reserved once, unless a block cannot hold that
many. Otherwise each slot is appended on its own.

This is `TaggedBuffer::log_message` and what it calls. Its shortcut for a format without
entries reserves three slots, which is the reserved case with no directive between.
-/
import Logbook.Buffer.Expansion
import Logbook.Context

set_option autoImplicit false

namespace Logbook

/-- The arguments of a message, as values of a heap. -/
structure Arguments where
  heap : Heap
  values : List Value
  deriving Repr

namespace Arguments

def none : Arguments := ⟨Heap.empty, []⟩

instance : Inhabited Arguments := ⟨Arguments.none⟩

end Arguments

/-- Whether a scalar is of the kind that is asked for. A formatter never converts: neither null
nor a time has a kind of its own. -/
def ScalarKind.fits : ScalarKind → Scalar → Bool
  | .bool, .bool _ => true
  | .number, .number _ => true
  | .text, .text _ => true
  | _, _ => false

/-- The slot of an argument that has to be a scalar of some kind. -/
def ScalarKind.slot (kind : ScalarKind) : Option Value → Slot
  | some (.scalar s) => if kind.fits s then .scalar s else .marker .badArgument
  | _ => .marker .badArgument

/-- **The slot of a directive that takes one at most**, `single_slot`; escaped characters take
none. The clock is read for the wall time and for nothing else. A directive that takes more is
not resolved here. -/
def Directive.slot? (d : Directive) (clock : Clock) (origin : Origin) (f : Format)
    (args : Arguments) : Option Slot × Clock :=
  match d with
  | .literal _ => (none, clock)
  | .expando .wallTime =>
    let (time, clock) := clock.read
    (some (.scalar (.time time)), clock)
  -- no other expando looks at the time, so any instant does
  | .expando e => (some (.scalar (e.value origin f default)), clock)
  | .scalar kind i => (some (kind.slot args.values[i]?), clock)
  | .general _ | .compound _ _ _ => (some (.marker .badArgument), clock)

namespace Buffer

/-- Appends what an argument has inside, from a path without nodes: `cycle_guard` is cleared
before each argument, whatever an earlier expansion left there. -/
def appendArgument (b : Buffer) (h : Heap) (v : Value) (bounds : Bounds) : Buffer :=
  { b with path := [] }.expand h v bounds

/-- **Appends what a directive prints**, where that may be more than one slot. A general
formatter takes any argument, a compound one only a node of its shape. -/
def appendDirective (b : Buffer) (clock : Clock) (origin : Origin) (f : Format)
    (args : Arguments) (d : Directive) : Buffer × Clock :=
  match d with
  | .general i =>
    match args.values[i]? with
    | some v => (b.appendArgument args.heap v Bounds.standard, clock)
    | none => (b.append (.marker .badArgument), clock)
  | .compound shape i bounds =>
    match args.values[i]? with
    | some (.node r) =>
      -- a node of the other shape is as wrong as a scalar
      if r.shape = shape then (b.appendArgument args.heap (.node r) bounds, clock)
      else (b.append (.marker .badArgument), clock)
    | _ => (b.append (.marker .badArgument), clock)
  | d =>
    match d.slot? clock origin f args with
    | (some s, clock) => (b.append s, clock)
    | (none, clock) => (b, clock)

/-- Puts the slot of a directive into room that was reserved. This asks for nothing but the one
slot: it is for formats whose directives take no more. -/
def pushDirective (b : Buffer) (clock : Clock) (origin : Origin) (f : Format)
    (args : Arguments) (d : Directive) : Buffer × Clock :=
  match d.slot? clock origin f args with
  | (some s, clock) => (b.push s, clock)
  | (none, clock) => (b, clock)

/-- **Appends a message slot by slot.** -/
def appendMessage (b : Buffer) (clock : Clock) (origin : Origin) (level : Level) (f : Format)
    (args : Arguments) : Buffer × Clock :=
  let (b, clock) := f.entries.foldl
    (fun (b, clock) e => b.appendDirective clock origin f args e.directive)
    ((b.append (.format f)).append (.level level), clock)
  (b.append .finish, clock)

/-- **Puts a message into room that was reserved** for it. -/
def pushMessage (b : Buffer) (clock : Clock) (origin : Origin) (level : Level) (f : Format)
    (args : Arguments) : Buffer × Clock :=
  let (b, clock) := f.entries.foldl
    (fun (b, clock) e => b.pushDirective clock origin f args e.directive)
    ((b.push (.format f)).push (.level level), clock)
  (b.push .finish, clock)

/-- The number of slots of a message whose directives take one at most: format, level, end, and
one for each directive that is no escaped character. -/
def slotCount (f : Format) : Nat :=
  3 + f.entries.countP fun e => !e.directive.isLiteral

/-- **Records a message**, in reserved room where its size is known and a block can
hold it, and slot by slot otherwise. -/
def log (b : Buffer) (clock : Clock) (origin : Origin) (level : Level) (f : Format)
    (args : Arguments) : Buffer × Clock :=
  if f.isSingleSlot then
    match b.reserve? (slotCount f) with
    | some room => room.pushMessage clock origin level f args
    -- more slots than a block has
    | none => b.appendMessage clock origin level f args
  else
    b.appendMessage clock origin level f args

end Buffer

end Logbook
