/-
Logged values.

A value is a scalar, something the log has no text for, or a node: a record with
named fields or a sequence of items. Nodes are shared
and may change after they were passed on, and a node may contain itself, so a value
holds only a reference and the contents live in a `Heap`. Two references are the
same node exactly when they are equal.
-/
import Logbook.Instant

set_option autoImplicit false

namespace Logbook

/-- The two kinds of node. -/
inductive Shape where
  | record
  | sequence
  deriving DecidableEq, Repr, Inhabited

/-- **Which node**: its kind, and its number among the nodes of that kind. A reference is what
a shared pointer to a `Record` or a `Sequence` is, with equality for the identity of pointers. -/
structure Ref where
  shape : Shape
  index : Nat
  deriving DecidableEq, Repr, Inhabited

/-- A value that is printed as one piece. -/
inductive Scalar where
  | null
  | bool (b : Bool)
  | number (n : Number)
  | text (s : String)
  | time (t : Instant)
  /-- A function, of which only the name is kept. -/
  | callable (name : String)
  deriving DecidableEq, Repr, Inhabited

/-- **A logged argument**, `Value`, without the contents of its nodes. -/
inductive Value where
  | scalar (s : Scalar)
  /-- Anything that has no text of its own. -/
  | foreign
  | node (ref : Ref)
  deriving DecidableEq, Repr, Inhabited

/-! ## Kinds

`Value::kind`, the short names that diagnostics use. -/

def Shape.kind : Shape → String
  | .record => "record"
  | .sequence => "sequence"

def Scalar.kind : Scalar → String
  | .null => "null"
  | .bool _ => "bool"
  | .number _ => "number"
  | .text _ => "string"
  | .time _ => "instant"
  | .callable _ => "callable"

def Value.kind : Value → String
  | .scalar s => s.kind
  | .foreign => "opaque"
  | .node r => r.shape.kind

end Logbook
