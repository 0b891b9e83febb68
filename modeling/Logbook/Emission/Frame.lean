/-
From slots to text, one slot at a time.

A stack of frames remembers where a rendering stands: a frame for the message with the
entries of its format that are still to come, and on top of it a frame for each node
that is open. The slot of a value is printed with the separator it needs among its
siblings; once a value is complete and no node is open, the literal text up to the next
entry follows, and escaped characters with it, since they have no slot.

Any slot can come at any time. One that has no place where it comes is reported and
does as little as it can, and the next format that comes starts anew.

This is the frame stack of `Emitter` and its `step`. The innermost frame is the first of
the list. A step is a function of the style and the frames alone, so what it writes does
not depend on the writer it is written to.
-/
import Logbook.Diagnostic
import Logbook.Emission.Style
import Logbook.Text.Quoted

set_option autoImplicit false

namespace Logbook

/-- **One level of a rendering**, `Frame`. -/
inductive Frame where
  /-- A message, with the entries that are still to be printed. -/
  | message (f : Format) (rest : List Entry)
  /-- A record: whether its next field needs a comma, and whether the name of that
  field was written already. -/
  | record (comma named : Bool)
  /-- A sequence: whether its next item needs a comma. -/
  | sequence (comma : Bool)
  deriving DecidableEq

/-! ## The text of a value -/

/-- The text of a marker, which is quoted wherever it stands: the part of `render_value` that is
not about scalars. -/
def Marker.text : Marker → String
  | .badArgument => "\"<BadFormat>\""
  | .foreign => "\"<Value>\""
  | .tooDeep .record => "\"<Object>\""
  | .tooDeep .sequence => "\"<Array>\""
  | .cycle => "\"<Cycle>\""
  | .lengthReached => "\"<LengthBoundHit>\""

/-- **The text of a scalar**, `render_scalar`. Inside a node a text is quoted, with escapes, and
so are a time and a callable, which are taken as they are: a time has nothing to escape, but a
callable may be named anything. -/
def Scalar.render (nested : Bool) : Scalar → String
  | .null => "null"
  | .bool b => if b then "true" else "false"
  | .number n => n.text
  | .text s => if nested then Text.quoted s else s
  | .time t => if nested then "\"" ++ t.text ++ "\"" else t.text
  | .callable name =>
    if nested then "\"[Function " ++ name ++ "]\"" else "[Function " ++ name ++ "]"

/-- The bracket that starts a node. -/
def Shape.openingBracket : Shape → String
  | .record => "\x7b"
  | .sequence => "["

namespace Frame

/-- The frame of a node that has just been opened. -/
def ofShape : Shape → Frame
  | .record => .record false false
  | .sequence => .sequence false

def isNode : Frame → Bool
  | .message _ _ => false
  | .record _ _ | .sequence _ => true

/-! ## Between values -/

/-- The separator before a sibling. -/
def separator (comma : Bool) : String := if comma then ", " else ""

/-- The escaped characters that come next, each with the literal text after it, and
the entries after those: `write_literals`. -/
def literals (f : Format) : List Entry → String × List Entry
  | [] => ("", [])
  | e :: rest =>
    match e.directive with
    | .literal c =>
      let (text, rest') := literals f rest
      (c.char.toString ++ (f.trailing e rest).read f.template ++ text, rest')
    | _ => ("", e :: rest)

/-- **What comes before a value**, `begin_value`: the separator that the innermost node asks for,
and the frames with the value noted. A field has its separator before its name, and so none here.
-/
def beforeValue : List Frame → String × List Frame
  | .record comma true :: frames => ("", .record comma false :: frames)
  | .record comma false :: frames => (separator comma, .record true false :: frames)
  | .sequence comma :: frames => (separator comma, .sequence true :: frames)
  | frames => ("", frames)

/-- Whether a value that comes next stands inside a node. -/
def isNested : List Frame → Bool
  | frame :: _ => frame.isNode
  | [] => false

/-- What a step comes to: the text it writes, the frames it leaves, what it reports,
and whether a message ended with it. -/
structure Step where
  text : String
  frames : List Frame
  reports : List Diagnostic := []
  ended : Bool := false

/-- **What comes after a value** that is complete, `end_value`: at the level of the message, the
literal text up to the next entry that prints something. -/
def afterValue : List Frame → Step
  | .message f (e :: rest) :: frames =>
    let (text, rest') := literals f rest
    { text := (f.trailing e rest).read f.template ++ text, frames := .message f rest' :: frames }
  | .message f [] :: frames =>
    { text := "", frames := .message f [] :: frames, reports := [.surplusValue f.name] }
  | frames => { text := "", frames := frames }

/-! ## Steps -/

/-- A value that is printed as one piece, given its text in and outside of a node. -/
def value (render : (nested : Bool) → String) (frames : List Frame) : Step :=
  let (before, noted) := beforeValue frames
  let after := afterValue noted
  { after with text := before ++ render (isNested frames) ++ after.text }

/-- The end of a node, `close`. -/
def close (shape : Shape) : List Frame → Step
  | .message f rest :: frames =>
    { text := "", frames := .message f rest :: frames, reports := [.strayBracket shape] }
  | [] => { text := "", frames := [], reports := [.strayBracket shape] }
  | _ :: frames =>
    -- the innermost node is closed whatever its shape, with the bracket that was asked for
    let after := afterValue frames
    { after with text := shape.closingBracket ++ after.text }

/-- The frames under the innermost message, and the number of nodes open in it. -/
def endMessage : List Frame → List Frame × Nat
  | [] => ([], 0)
  | .message _ _ :: frames => (frames, 0)
  | _ :: frames =>
    let (rest, unclosed) := endMessage frames
    (rest, unclosed + 1)

/-- The level of a message: what stands before the message and its literal text up to
the first entry that prints something. Outside of a message it is nothing. -/
def header (style : Style) (level : Level) : List Frame → Step
  | .message f rest :: frames =>
    let (text, rest') := literals f rest
    { text := style.preamble f.name level ++ f.lead ++ text
      frames := .message f rest' :: frames }
  | frames => { text := "", frames := frames }

/-- The name of a field. It is written wherever it comes, and noted in a record. -/
def label (name : String) : List Frame → Step
  | .record comma _ :: frames =>
    { text := separator comma ++ Text.quoted name ++ ": ", frames := .record true true :: frames }
  | frames => { text := Text.quoted name ++ ": ", frames := frames }

/-- **What one slot comes to**, `Emitter::step`. Only an end says that a message ended, and it
says so also outside of any message, with the terminator alone. -/
def step (style : Style) (frames : List Frame) : Slot → Step
  | .format f =>
    -- whatever was being rendered is given up, so that the new message starts clean
    { text := ""
      frames := [.message f f.entries]
      reports := if frames.isEmpty then [] else [.startedInsideMessage f.name] }
  | .level l => header style l frames
  | .finish =>
    let (rest, unclosed) := endMessage frames
    { text := style.terminator
      frames := rest
      reports := List.replicate unclosed .unclosedBracket
      ended := true }
  | .opening shape =>
    let (before, noted) := beforeValue frames
    { text := before ++ shape.openingBracket, frames := ofShape shape :: noted }
  | .closing shape => close shape frames
  | .name s => label s frames
  | .scalar s => value (Scalar.render · s) frames
  | .marker m => value (fun _ => m.text) frames

end Frame

end Logbook
