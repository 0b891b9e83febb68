/-
Byte offsets into a text.

Positions in a template count the bytes of its UTF-8 form, not its characters.
A text is a list of characters here, and a cut at a byte offset exists only
where a character starts or at the end: `dropBytes?` and `takeBytes?` refuse to
split a character and to run past the end, and `Span.read?` is the one after the
other.
-/

set_option autoImplicit false

namespace Logbook

namespace Text

/-- The number of bytes of a text in UTF-8. -/
def byteLength (cs : List Char) : Nat :=
  cs.foldr (fun c n => c.utf8Size + n) 0

/-- What is left after the first `n` bytes. -/
def dropBytes? : Nat → List Char → Option (List Char)
  | 0, cs => some cs
  | _ + 1, [] => none
  | n + 1, c :: cs =>
    if c.utf8Size ≤ n + 1 then dropBytes? (n + 1 - c.utf8Size) cs else none

/-- The first `n` bytes. -/
def takeBytes? : Nat → List Char → Option (List Char)
  | 0, _ => some []
  | _ + 1, [] => none
  | n + 1, c :: cs =>
    if c.utf8Size ≤ n + 1 then (takeBytes? (n + 1 - c.utf8Size) cs).map (c :: ·) else none

end Text

/-- A stretch of text between two byte offsets, the second excluded. -/
structure Span where
  start : Nat
  stop : Nat
  deriving DecidableEq, Repr

namespace Span

/-- **The text at a span**, if the span lies in the text and cuts no character: the slice that
`emit_str_span` takes. -/
def read? (span : Span) (cs : List Char) : Option (List Char) :=
  if span.start ≤ span.stop then
    (Text.dropBytes? span.start cs).bind (Text.takeBytes? (span.stop - span.start))
  else
    none

/-- The text at a span, nothing where there is none. The spans of a compiled format never
lie there. -/
def read (span : Span) (cs : List Char) : String :=
  String.ofList ((span.read? cs).getD [])

end Span

end Logbook
