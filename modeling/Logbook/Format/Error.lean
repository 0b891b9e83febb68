/-
Why a format is refused, and how that is worded.

Each way to go wrong is a constructor of its own; the wording is made from it in one
place.
-/
import Logbook.Format.Directive

set_option autoImplicit false

namespace Logbook

/-- What is wrong with an argument formatter, in the order in which it is noticed. -/
inductive FormatterFault where
  | stray
  | noPosition
  | positionTooLarge
  | noColon
  | unknownKind
  | notClosed
  | noBounds
  | boundsNotEnded
  | noComma
  | notClosedAfterBounds
  | boundTooLarge
  | badBound
  deriving DecidableEq, Repr

/-- How a fault is worded. -/
def FormatterFault.message : FormatterFault → String
  | .stray => "stray `$`"
  | .noPosition => "missing argument position"
  | .positionTooLarge => "argument position out of range"
  | .noColon => "expected `:` after argument position"
  | .unknownKind => "unknown formatter kind"
  | .notClosed => "expected `\x7d` after formatter kind"
  | .noBounds => "expected `\x7d` or `<depth,length>`"
  | .boundsNotEnded => "unterminated `<depth,length>` clause"
  | .noComma => "expected `,` in `<depth,length>` clause"
  | .notClosedAfterBounds => "expected `\x7d` after `<depth,length>` clause"
  | .boundTooLarge => "expansion bound out of range"
  | .badBound => "expansion bound must be digits or `*`"

/-- What is wrong at a `#` or `$`. -/
inductive TokenFault where
  | expando
  | formatter (fault : FormatterFault)
  deriving DecidableEq, Repr

/-- What is wrong with a layout. -/
inductive LayoutFault where
  | notCompound
  | selfReferring
  deriving DecidableEq, Repr

def LayoutFault.message : LayoutFault → String
  | .notCompound => "expected a record or sequence"
  | .selfReferring => "layout refers to itself"

/-- **Why a format does not compile**, `CompileError`. Each refusal names the format, and those
that come from a place in the template have its byte offset. -/
inductive CompileError where
  | lineBreak (name : String)
  | unknownExpando (name : String) (offset : Nat)
  | badFormatter (name : String) (offset : Nat) (fault : FormatterFault)
  | badLayout (name : String) (fault : LayoutFault)
  deriving DecidableEq, Repr

def CompileError.message : CompileError → String
  | .lineBreak name => "format `" ++ name ++ "` contains a line break"
  | .unknownExpando name offset =>
    "format `" ++ name ++ "` has an unknown expando at offset " ++ Decimal.intText offset
  | .badFormatter name offset fault =>
    "format `" ++ name ++ "` has a bad argument formatter at offset " ++ Decimal.intText offset
      ++ ": " ++ fault.message
  | .badLayout name fault => "format `" ++ name ++ "` layout is invalid: " ++ fault.message

end Logbook
