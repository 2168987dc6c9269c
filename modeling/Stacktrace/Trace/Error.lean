import Stacktrace.Frame.Reader

/-!
Why a text is no trace. Every cause but an empty input is found at a line, counted from zero.
-/

namespace Stacktrace

inductive DecodeError
  | emptyInput
  | malformedFrame (line : Nat) (error : FrameError)
  | danglingElision (line count : Nat)
  | unresolvedCircularReference (line : Nat) (display : Text)
  | unknownLineFormat (line : Nat)
deriving DecidableEq

namespace DecodeError

def kind : DecodeError → String
  | emptyInput => "empty_input"
  | malformedFrame .. => "malformed_frame"
  | danglingElision .. => "dangling_elision"
  | unresolvedCircularReference .. => "unresolved_circular_reference"
  | unknownLineFormat .. => "unknown_line_format"

def line? : DecodeError → Option Nat
  | emptyInput => none
  | malformedFrame line _ | danglingElision line _ | unresolvedCircularReference line _
  | unknownLineFormat line => some line

def message : DecodeError → String
  | emptyInput => "no failure header found in empty input"
  | malformedFrame line error =>
    let found := error.message
    s!"line {line}: {found}"
  | danglingElision line count =>
    s!"line {line}: elision of {count} frame(s) has no enclosing trace to copy from"
  | unresolvedCircularReference line display =>
    let shown := String.ofList display
    s!"line {line}: circular reference to unknown failure `{shown}`"
  | unknownLineFormat line => s!"line {line}: unexpected line format"

end DecodeError
end Stacktrace
