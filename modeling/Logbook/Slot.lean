/-
Slots: what a message is made of while it is held in memory.

A message is a run of slots: its format, its level, one group for every directive that
prints something, and an end. A group is one scalar, one marker in the place of a value
that cannot be shown, or a node in brackets, where a name stands before the value of
each field. Literal text has no slot, it is in the format.

These are `Entry` and `EntryTag`. Where there is one constructor for records and one for
sequences a shape tells them apart here, and the five that stand for a value are markers.
-/
import Logbook.Format.Basic
import Logbook.Level

set_option autoImplicit false

namespace Logbook

/-- **What stands in the place of a value that is not shown.** All but `lengthReached` take the
place of one value; that one comes after the last child that is shown. -/
inductive Marker where
  /-- `BadFormatArg`: the argument is missing or of another kind. -/
  | badArgument
  /-- `LengthBoundHit`: there are more children than the bounds allow. -/
  | lengthReached
  /-- `CycleDetected`: the node is one that is being shown already. -/
  | cycle
  /-- `OpaqueValue`: the value has no text. -/
  | foreign
  /-- `OpaqueRecord`, `OpaqueSequence`: the node lies deeper than the bounds allow. -/
  | tooDeep (shape : Shape)
  deriving DecidableEq, Repr

/-- **One slot of a buffer**, `Entry`. A slot carries the format itself and not its name, so a
buffer can be rendered without the loggers that filled it. -/
inductive Slot where
  | format (f : Format)
  | level (l : Level)
  | finish
  | opening (shape : Shape)
  | closing (shape : Shape)
  | name (s : String)
  | scalar (s : Scalar)
  | marker (m : Marker)
  deriving DecidableEq

/-! ## Tags -/

/-- The kind of a slot without what it carries, and `clear` for no slot at all: `EntryTag`. -/
inductive Tag where
  | clear
  | format
  | level
  | finish
  | opening (shape : Shape)
  | closing (shape : Shape)
  | name
  | scalar
  | marker (m : Marker)
  deriving DecidableEq, Repr

namespace Tag

/-- Every tag once, in the order of `EntryTag`. -/
def list : List Tag :=
  [.clear, .format, .level, .finish, .opening .record, .closing .record, .opening .sequence,
   .closing .sequence, .name, .marker .badArgument, .scalar, .marker .lengthReached,
   .marker .cycle, .marker .foreign, .marker (.tooDeep .record), .marker (.tooDeep .sequence)]

/-- The name of a tag as diagnostics show it. -/
def label : Tag → String
  | .clear => "Clear"
  | .format => "MsgFormat"
  | .level => "MsgLevel"
  | .finish => "MsgEnd"
  | .opening .record => "ObjectOpen"
  | .closing .record => "ObjectClose"
  | .opening .sequence => "ArrayOpen"
  | .closing .sequence => "ArrayClose"
  | .name => "PropertyName"
  | .scalar => "PlainValue"
  | .marker .badArgument => "BadFormatArg"
  | .marker .lengthReached => "LengthBoundHit"
  | .marker .cycle => "CycleDetected"
  | .marker .foreign => "OpaqueValue"
  | .marker (.tooDeep .record) => "OpaqueRecord"
  | .marker (.tooDeep .sequence) => "OpaqueSequence"

/-- The tag of a name. -/
def ofLabel? (s : String) : Option Tag :=
  list.find? fun t => t.label = s

/-- The slot of a tag that carries nothing else, `Entry::tag_only`. -/
def slot? : Tag → Option Slot
  | .finish => some .finish
  | .opening shape => some (.opening shape)
  | .closing shape => some (.closing shape)
  | .marker m => some (.marker m)
  | .clear | .format | .level | .name | .scalar => none

end Tag

/-- `Entry::tag`. -/
def Slot.tag : Slot → Tag
  | .format _ => .format
  | .level _ => .level
  | .finish => .finish
  | .opening shape => .opening shape
  | .closing shape => .closing shape
  | .name _ => .name
  | .scalar _ => .scalar
  | .marker m => .marker m

end Logbook
