/-
Formats made from a layout.

A layout is a record or sequence value whose texts may be directives. It is first
written out as a template, with brackets, commas and quoted names, and the template is
then compiled. A text that is one whole directive is written without quotes, so that
what it prints takes its place; any other text stays a quoted text, with whatever
directives it has inside.
-/
import Logbook.Format.Basic
import Logbook.Value.Heap

set_option autoImplicit false

namespace Logbook

namespace Layout

/-- A text between quotes, as it is: `push_quoted`. Nothing is escaped, unlike in the text of an
argument (`Text.quoted`). -/
def quote (s : String) : String := "\"" ++ s ++ "\""

/-- The name of a field and the colon after it. -/
def label : Option String → String
  | some name => quote name ++ ": "
  | none => ""

/-- A node around the text of its children. -/
def enclose : Shape → String → String
  | .record, inner => "\x7b " ++ inner ++ " \x7d"
  | .sequence, inner => "[ " ++ inner ++ " ]"

/-- A scalar inside a layout. A text that is one directive is not quoted, and the compiled
template will have the directive in its place. -/
def scalar : Scalar → String
  | .null => "null"
  | .bool b => if b then "true" else "false"
  | .number n => n.text
  | .text s => if Template.isDirective s.toList then s else quote s
  | .time t => quote t.text
  | .callable name => quote name

/-- **The template a layout stands for**, given the nodes it is inside of: the text that
`render_layout` writes. That stops at a node it is inside of, with an error; here it goes on
with no text in its place, and whether the layout is refused is decided by `Heap.reenters`. -/
def write (h : Heap) (path : List Ref) (v : Value) : String :=
  match v with
  | .scalar s => scalar s
  | .foreign => quote "<Value>"
  | .node r =>
    -- never reached from a layout that is compiled
    if _hp : r ∈ path then ""
    else
      enclose r.shape <| ", ".intercalate <|
        (h.children r).attach.map fun ⟨c, _⟩ => label c.name ++ write h (r :: path) c.value
termination_by h.free path
decreasing_by exact Heap.free_cons_lt (Heap.mem_refs_of_mem_children ‹_›) _hp

end Layout

/-- **Compiles a layout**, `CompiledFormat::compile_layout`. It has to be a record or sequence,
and may not contain itself; the template that it stands for may still be refused. -/
def Format.ofLayout (name : String) (h : Heap) (layout : Value) : Except CompileError Format :=
  match layout with
  | .node _ =>
    -- shared nodes are fine, they are written once for each place they stand in
    if h.reenters [] layout then .error (.badLayout name .selfReferring)
    else Format.compile name (Layout.write h [] layout).toList
  | _ => .error (.badLayout name .notCompound)

end Logbook
