import Stacktrace.Frame.Reader
import Stacktrace.Text.Slice

/-!
Reading a frame by positions. One pass over the text notes where its parts end, in bytes: at the last
dot before the first opening parenthesis, at that parenthesis, and behind it at the last colon and
the last closing parenthesis. The parts are then cut out between these positions. There is no result
where a cut is out of range.
-/

namespace Stacktrace.Frame

structure Positions where
  dot : Option Nat := none
  opening : Option Nat := none
  colon : Option Nat := none
  closing : Option Nat := none

namespace Positions

def note (p : Positions) (i : Nat) (c : Char) : Positions :=
  match c, p.opening with
  | '.', none => { p with dot := some i }
  | '(', none => { p with opening := some i }
  | ':', some _ => { p with colon := some i }
  | ')', some _ => { p with closing := some i }
  | _, _ => p

/-- The positions behind a text whose first character is at `i`. -/
def scan (p : Positions) (i : Nat) : Text → Positions
  | [] => p
  | c :: t => scan (p.note i c) (i + c.utf8Size) t

end Positions

def cutLocation? (t : Text) (p : Positions) (opening closing : Nat) :
    Option (Option Text × LineNumber) :=
  (t.slice? (opening + 1) closing).bind fun location =>
    if location = nativeMethod then some (none, .native)
    else if location = unknownSource then some (none, .unavailable)
    else
      match p.colon.filter (· < closing) with
      | none => some (some location, .unavailable)
      | some colon =>
        (t.slice? (colon + 1) closing).bind fun digits =>
          match (Text.toInt? digits).bind LineNumber.ofInt? with
          | none => some (some location, .unavailable)
          | some line => (t.slice? (opening + 1) colon).map fun label => (some label, line)

def readByPositions? (t : Text) : Option (Except FrameError Frame) :=
  let p := Positions.scan {} 0 t
  match p.opening, p.closing, p.dot.filter (0 < ·) with
  | none, _, _ => some (.error .noOpening)
  | some _, none, _ => some (.error .noClosing)
  | some _, some _, none => some (.error .noUnit)
  | some opening, some closing, some dot =>
    (t.slice? 0 dot).bind fun unit =>
      (t.slice? (dot + 1) opening).bind fun operation =>
        if operation = [] then some (.error .noOperation)
        else (cutLocation? t p opening closing).map fun place =>
          .ok ⟨unit, operation, place.1, place.2⟩

/-- Reads the frame that starts at a byte offset. -/
def readByPositionsAt? (t : Text) (start : Nat) : Option (Except FrameError Frame) :=
  match t.dropBytes? start with
  | none => some (.error .outOfBounds)
  | some rest => readByPositions? rest

end Stacktrace.Frame
