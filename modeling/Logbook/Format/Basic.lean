/-
Compiled formats.

A format is a template under a name, with the directives that were found in it. It
can only be made by scanning the template: the proof that the entries are those of
the template is part of it. So every format that a message refers to has spans that
lie in its template, and the literal text between two directives can be cut out of
the template when the message is rendered.
-/
import Logbook.Format.Scan

set_option autoImplicit false

namespace Logbook

/-- **A template that compiled**, `CompiledFormat`. The largest position and the choice of one
slot each, which are settled when a template is compiled, are functions of its entries
(`maxArgument`, `isSingleSlot`). -/
structure Format where
  name : String
  template : List Char
  entries : List Entry
  scanned : Template.scan 0 0 template = .ok entries
  deriving DecidableEq

namespace Format

/-- **Compiles a template**, `CompiledFormat::compile`. A line break anywhere in it is noticed
first, then the first `#` or `$` that starts no directive. -/
def compile (name : String) (template : List Char) : Except CompileError Format :=
  if template.any fun c => c = '\n' ∨ c = '\r' then
    .error (.lineBreak name)
  else
    match h : Template.scan 0 0 template with
    | .ok entries => .ok ⟨name, template, entries, h⟩
    | .error (offset, .expando) => .error (.unknownExpando name offset)
    | .error (offset, .formatter fault) => .error (.badFormatter name offset fault)

/-- The largest position of an argument that is used, if any is: `max_arg_index`. -/
def maxArgument (f : Format) : Option Nat :=
  (f.entries.filterMap (·.directive.argument?)).max?

/-- Whether every directive takes at most one slot, `all_single_slot`. An escaped character
takes none, so the slots of a message may be fewer than its directives. -/
def isSingleSlot (f : Format) : Bool :=
  f.entries.all (·.directive.isSingleSlot)

/-- Where the first of some last entries starts, and where the template ends if
there are none. -/
def startOf (f : Format) : List Entry → Nat
  | [] => Text.byteLength f.template
  | e :: _ => e.span.start

/-- The literal text before the first entry, `prefix`. -/
def lead (f : Format) : String :=
  (Span.mk 0 (f.startOf f.entries)).read f.template

/-- Where the literal text stands between an entry and those that follow it: `trailing_span`,
with the entries that follow in place of an index. -/
def trailing (f : Format) (e : Entry) (rest : List Entry) : Span :=
  ⟨e.span.stop, f.startOf rest⟩

end Format

end Logbook
