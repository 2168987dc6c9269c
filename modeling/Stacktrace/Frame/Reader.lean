import Stacktrace.Frame.Basic
import Stacktrace.Text.Utf8

/-!
Reading a frame. The first opening parenthesis ends the name, whose last dot parts the unit from
the operation; the last closing parenthesis after it ends the location, and what follows that
parenthesis is not part of the frame. A line number stands after the last colon, so a colon behind
the closing parenthesis leaves the location without one.
-/

namespace Stacktrace

inductive FrameError
  | outOfBounds
  | noOpening
  | noClosing
  | noUnit
  | noOperation
deriving DecidableEq

def FrameError.reason : FrameError → String
  | .outOfBounds => "start offset is out of bounds"
  | .noOpening => "missing opening parenthesis"
  | .noClosing => "missing closing parenthesis"
  | .noUnit => "missing declaring unit"
  | .noOperation => "missing operation name"

def FrameError.message (e : FrameError) : String := "malformed stack frame: " ++ e.reason

namespace Frame

/-- The label and the line number around the last colon of a location. -/
def numbered? (location : Text) : Option (Text × LineNumber) :=
  match location.cutLast? ':' with
  | none => none
  | some (label, digits) => ((Text.toInt? digits).bind LineNumber.ofInt?).map (label, ·)

/-- The label and the line that a location states, given what follows its closing parenthesis. -/
def readLocation (location tail : Text) : Option Text × LineNumber :=
  if location = nativeMethod then (none, .native)
  else if location = unknownSource then (none, .unavailable)
  else if ':' ∈ tail then (some location, .unavailable)
  else
    match numbered? location with
    | some (label, line) => (some label, line)
    | none => (some location, .unavailable)

def readName (name : Text) : Except FrameError (Text × Text) :=
  match name.cutLast? '.' with
  | none => .error .noUnit
  | some (unit, operation) =>
    if unit = [] then .error .noUnit
    else if operation = [] then .error .noOperation
    else .ok (unit, operation)

def read (t : Text) : Except FrameError Frame :=
  match t.cut? ['('] with
  | none => .error .noOpening
  | some (name, rest) =>
    match rest.cutLast? ')' with
    | none => .error .noClosing
    | some (location, tail) =>
      (readName name).map fun parts =>
        let place := readLocation location tail
        ⟨parts.1, parts.2, place.1, place.2⟩

/-- Reads the frame that starts at a byte offset. -/
def readAt (t : Text) (start : Nat) : Except FrameError Frame :=
  match t.dropBytes? start with
  | none => .error .outOfBounds
  | some rest => read rest

end Frame
end Stacktrace
