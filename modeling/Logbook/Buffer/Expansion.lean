/-
Appending a value and what is inside it.

A scalar takes one slot. A node is put in brackets and its children are appended
between them, as many levels and as many children at each level as the bounds allow;
markers stand for the rest. The buffer keeps the path of nodes it is inside of, and a
node of that path is not entered again: a marker stands for it, however much depth is
left. A node that is merely met twice is shown twice.

Records and sequences are expanded by one function here. A field differs from an item in
the name before it, and the two bounds on the number of children in `Bounds.length`.
-/
import Logbook.Buffer.Basic
import Logbook.Value.Heap

set_option autoImplicit false

namespace Logbook

namespace Buffer

/-- The buffer, about to append what is inside a node. -/
def enter (b : Buffer) (r : Ref) : Buffer := { b with path := r :: b.path }

/-- The buffer, done with what is inside the innermost node. -/
def leave (b : Buffer) : Buffer := { b with path := b.path.tail }

/-- Appends the name of a field, if there is one. -/
def appendName (b : Buffer) : Option String → Buffer
  | some name => b.append (.name name)
  | none => b

/-- **Appends a value** with at most `depth` levels of nodes: `expand_value`, with
`expand_record` and `expand_sequence` for the nodes. -/
def appendValue (h : Heap) (bounds : Bounds) (depth : Nat) (b : Buffer) (v : Value) : Buffer :=
  match v with
  | .scalar s => b.append (.scalar s)
  | .foreign => b.append (.marker .foreign)
  | .node r =>
    -- before the depth is looked at: a cycle is one even where nothing could be shown below it
    if r ∈ b.path then
      b.append (.marker .cycle)
    else
      match depth with
      | 0 => b.append (.marker (.tooDeep r.shape))
      | depth + 1 =>
        let children := h.children r
        -- the loop over the children ends at the one whose number is the bound, so the marker
        -- comes exactly if there is such a child
        let shown := children.take (bounds.length r.shape)
        let inside := shown.foldl
          (fun b c => appendValue h bounds depth (b.appendName c.name) c.value)
          ((b.enter r).append (.opening r.shape))
        let marked :=
          if bounds.length r.shape < children.length then inside.append (.marker .lengthReached)
          else inside
        marked.leave.append (.closing r.shape)

/-- Appends a value within bounds, `TaggedBuffer::expand`. The path is used as it stands; a
message forgets it first. -/
def expand (b : Buffer) (h : Heap) (v : Value) (bounds : Bounds) : Buffer :=
  appendValue h bounds bounds.depth b v

end Buffer

end Logbook
