/-
What a template can ask for.

A template is literal text with directives in it. A directive is an escaped `#` or
`$`, an expando that is filled in from the context of the message, or a formatter
that prints one argument: as a scalar of one kind, as whatever it is, or as a record
or sequence with bounds on how much of it is shown.
-/
import Logbook.Text.Span
import Logbook.Value.Basic

set_option autoImplicit false

namespace Logbook

/-- A character that a template has to write twice, `LiteralChar`. -/
inductive Escaped where
  | hash
  | dollar
  deriving DecidableEq, Repr

def Escaped.char : Escaped → Char
  | .hash => '#'
  | .dollar => '$'

/-- What the context of a message can fill in. -/
inductive Expando where
  | ipAddr
  | appName
  | moduleName
  | msgName
  | wallTime
  | logicalTime
  | callbackId
  | requestId
  deriving DecidableEq, Repr

namespace Expando

/-- The expandos in the order in which they are looked for, `Expando::ALL`. None of their names
begins another one's, so the order does not matter. -/
def list : List Expando :=
  [.ipAddr, .appName, .moduleName, .msgName, .wallTime, .logicalTime, .callbackId, .requestId]

/-- The name of an expando, without the `#` before it. -/
def name : Expando → List Char
  | .ipAddr => "ip_addr".toList
  | .appName => "app_name".toList
  | .moduleName => "module_name".toList
  | .msgName => "msg_name".toList
  | .wallTime => "wall_time".toList
  | .logicalTime => "logical_time".toList
  | .callbackId => "callback_id".toList
  | .requestId => "request_id".toList

end Expando

/-- The kinds of scalar a formatter can ask for. -/
inductive ScalarKind where
  | bool
  | number
  | text
  deriving DecidableEq, Repr

/-- **How much of a record or sequence is shown**: how many levels, and how many
children at each level, by the shape of the node they stand in. This is `ExpandBounds`. -/
structure Bounds where
  depth : Nat
  recordLength : Nat
  sequenceLength : Nat
  deriving DecidableEq, Repr

namespace Bounds

/-- The bounds of a formatter that gives none, `ExpandBounds::DEFAULT`. -/
def standard : Bounds := ⟨2, 1024, 128⟩

/-- Counts and positions are words of 64 bits. -/
def wordLimit : Nat := Nat.pow 2 64

/-- The value of `*`, `UNBOUNDED`: more levels and children than there can be. -/
def unbounded : Nat := wordLimit - 1

/-- The bound that counts for the children of a node, `length_for`. -/
def length (b : Bounds) : Shape → Nat
  | .record => b.recordLength
  | .sequence => b.sequenceLength

end Bounds

/-- **What a template can ask for**, `FormatEntryTag`. -/
inductive Directive where
  | literal (c : Escaped)
  | expando (e : Expando)
  /-- An argument that has to be a scalar of one kind. -/
  | scalar (kind : ScalarKind) (argument : Nat)
  /-- An argument of any kind, within the standard bounds. -/
  | general (argument : Nat)
  /-- An argument that has to be a node of one shape, within bounds. -/
  | compound (shape : Shape) (argument : Nat) (bounds : Bounds)
  deriving DecidableEq, Repr

namespace Directive

/-- The position of the argument that is printed, `arg_position`. -/
def argument? : Directive → Option Nat
  | .scalar _ i | .general i | .compound _ i _ => some i
  | _ => none

def bounds? : Directive → Option Bounds
  | .compound _ _ b => some b
  | _ => none

/-- The number of children the outermost node is shown with, `expand_length`. -/
def length? : Directive → Option Nat
  | .compound shape _ b => some (b.length shape)
  | _ => none

/-- Whether a directive is an escaped character, which needs no slot. -/
def isLiteral : Directive → Bool
  | .literal _ => true
  | _ => false

/-- Whether a directive takes at most one slot, whatever the arguments are. -/
def isSingleSlot : Directive → Bool
  | .literal _ | .expando _ | .scalar _ _ => true
  | .general _ | .compound _ _ _ => false

end Directive

/-- A directive and where it stands in its template. -/
structure Entry where
  directive : Directive
  span : Span
  deriving DecidableEq, Repr

end Logbook
