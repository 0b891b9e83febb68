/-
Finding the directives of a template.

A scan goes over the characters of a template with the byte offset of the next one.
A `#` or a `$` has to start a directive; the characters of the directive are then
skipped, and every other character is literal text. The readers look at the
characters after the `#` or `$` and say which directive starts there and how many of
them belong to it. What they accept is ASCII, so that count is a count of bytes too.
-/
import Logbook.Format.Error

set_option autoImplicit false

namespace Logbook

namespace Template

/-! ## Numbers and bounds -/

/-- The value of a list of digits, leading zeros included. -/
def valueOf (digits : List Char) : Nat :=
  digits.foldl (fun n c => 10 * n + (c.toNat - '0'.toNat)) 0

/-- The value of a list of digits, if it fits a word. -/
def readWord (digits : List Char) : Option Nat :=
  let n := valueOf digits
  if n < Bounds.wordLimit then some n else none

/-- One side of a `<depth,length>` clause: nothing, `*`, or digits. This is `bound`. -/
def readSide (side : List Char) : Except FormatterFault (Option Nat) :=
  if side.isEmpty then
    .ok none
  else if side = ['*'] then
    .ok (some Bounds.unbounded)
  else if side.all Char.isDigit then
    match readWord side with
    | some n => .ok (some n)
    | none => .error .boundTooLarge
  else
    .error .badBound

/-- The two sides of a clause, parted at its first comma. -/
def splitComma (clause : List Char) : Option (List Char × List Char) :=
  match clause.dropWhile (· ≠ ',') with
  | _ :: length => some (clause.takeWhile (· ≠ ','), length)
  | [] => none

/-- The bounds of the two sides of a clause. A side left empty keeps the standard
bound, and the length counts for records and sequences alike. -/
def boundsOf (depth length : Option Nat) : Bounds :=
  { depth := depth.getD Bounds.standard.depth
    recordLength := length.getD Bounds.standard.recordLength
    sequenceLength := length.getD Bounds.standard.sequenceLength }

/-- **What follows the kind of a compound formatter**: a closing brace, or a clause with bounds
and then the brace. The clause ends at the first `>`, wherever in the template that is. This is
`expand_bounds`, with its tests in the same order, so that the same fault is reported. -/
def readBounds : List Char → Except FormatterFault (Bounds × Nat)
  | '}' :: _ => .ok (Bounds.standard, 1)
  | '<' :: rest =>
    let clause := rest.takeWhile (· ≠ '>')
    match rest.dropWhile (· ≠ '>') with
    | [] => .error .boundsNotEnded
    | _ :: after =>
      match splitComma clause with
      | none => .error .noComma
      | some (depth, length) =>
        if after.head? = some '}' then do
          let depth ← readSide depth
          let length ← readSide length
          -- the clause, its two brackets and the brace
          .ok (boundsOf depth length, clause.length + 3)
        else
          .error .notClosedAfterBounds
  | _ => .error .noBounds

/-! ## Directives -/

/-- The directive a kind letter stands for, if it takes no bounds. -/
def plainKind? (argument : Nat) : Char → Option Directive
  | 'b' => some (.scalar .bool argument)
  | 'n' => some (.scalar .number argument)
  | 's' => some (.scalar .text argument)
  | 'g' => some (.general argument)
  | _ => none

/-- The shape a kind letter stands for, if it takes bounds. -/
def compoundKind? : Char → Option Shape
  | 'o' => some .record
  | 'a' => some .sequence
  | _ => none

/-- What follows the colon of a formatter: the kind and the closing brace. -/
def readKind (argument : Nat) : List Char → Except FormatterFault (Directive × Nat)
  | [] => .error .unknownKind
  | kind :: rest =>
    match plainKind? argument kind, compoundKind? kind with
    | some directive, _ =>
      if rest.head? = some '}' then .ok (directive, 2) else .error .notClosed
    | none, some shape => do
      let (bounds, width) ← readBounds rest
      .ok (.compound shape argument bounds, width + 1)
    | none, none => .error .unknownKind

/-- **What follows a `$`**: another one, or an argument formatter in braces. This is
`formatter_at`. -/
def readFormatter : List Char → Except FormatterFault (Directive × Nat)
  | '$' :: _ => .ok (.literal .dollar, 1)
  | '{' :: body =>
    let digits := body.takeWhile Char.isDigit
    if digits.isEmpty then
      .error .noPosition
    else
      match readWord digits with
      | none => .error .positionTooLarge
      | some argument =>
        match body.dropWhile Char.isDigit with
        | ':' :: kind => do
          let (directive, width) ← readKind argument kind
          .ok (directive, width + digits.length + 2)
        | _ => .error .noColon
  | _ => .error .stray

/-- **What follows a `#`**: another one, or the name of an expando. This is `expando_at`. -/
def readExpando : List Char → Option (Directive × Nat)
  | '#' :: _ => some (.literal .hash, 1)
  -- no name is the beginning of another, so the first one that fits is the only one
  | cs => (Expando.list.find? fun e => e.name.isPrefixOf cs).map fun e => (.expando e, e.name.length)

/-- **What starts at a character.** Nothing starts at a character of literal text. At
a `#` or `$` it is a directive, with the number of further characters it has, or a
fault. -/
def readToken (c : Char) (cs : List Char) : Option (Except TokenFault (Directive × Nat)) :=
  if c = '#' then
    some (match readExpando cs with | some d => .ok d | none => .error .expando)
  else if c = '$' then
    some ((readFormatter cs).mapError .formatter)
  else
    none

/-- **The directives of a text**, each with its span: `parse_entries`. The first `skip` characters
belong to a directive that was read already, and `offset` is the number of bytes before the
text. A fault comes with its offset. -/
def scan : (skip offset : Nat) → List Char → Except (Nat × TokenFault) (List Entry)
  | _, _, [] => .ok []
  | skip + 1, offset, c :: cs => scan skip (offset + c.utf8Size) cs
  | 0, offset, c :: cs =>
    match readToken c cs with
    | none => scan 0 (offset + c.utf8Size) cs
    | some (.error fault) => .error (offset, fault)
    | some (.ok (directive, width)) =>
      -- the characters of a directive are one byte wide, so `width` counts bytes as well
      (scan width (offset + c.utf8Size) cs).map
        (⟨directive, ⟨offset, offset + 1 + width⟩⟩ :: ·)

/-- Whether a text is one directive from its first character to its last, `is_live_specifier`.
Escaped characters do not count. -/
def isDirective : List Char → Bool
  | [] => false
  | c :: cs =>
    match readToken c cs with
    | some (.ok (directive, width)) => !directive.isLiteral && width == cs.length
    | _ => false

end Template

end Logbook
