import Stacktrace.Failure.Walk
import Stacktrace.Text.Lines
import Stacktrace.Trace.Codec
import Stacktrace.Trace.Mark

/-!
Failures that are being read: where one stands, what has been read of it, and what can follow. A
failure begins with its header and grows by message lines, frames, suppressed failures and a cause,
in this order.
-/

namespace Stacktrace

/-- A circular reference that has not been closed: the index of its first line, the text on that
line, the text read so far, and the first display text that no open failure has. -/
structure PendingReference where
  line : Nat
  first : Text
  text : Text
  unresolved : Option Text

/-- What can follow in a failure that is being read. -/
inductive Phase
  | message
  | frames
  | relations
  | circular (pending : PendingReference)
  | complete

namespace Phase

def takesFrames : Phase → Bool
  | message | frames => true
  | _ => false

def takesRelations : Phase → Bool
  | message | frames | relations => true
  | _ => false

end Phase

structure OpenFailure where
  visit : Visit Nat
  phase : Phase

namespace OpenFailure

def node (f : OpenFailure) : Failure Nat := f.visit.node

def depth (f : OpenFailure) : Nat := f.visit.depth

def update (f : OpenFailure) (node : Failure Nat) (phase : Phase) : OpenFailure :=
  { f with visit.node := node, phase }

def setCause (f : OpenFailure) (cause : Cause Nat (Failure Nat)) : OpenFailure :=
  f.update { f.node with cause } .complete

/-- The failure above one that has been read to its end. -/
def attach (parent child : OpenFailure) : OpenFailure :=
  match child.visit.relation with
  | .suppressed =>
    parent.update { parent.node with suppressed := parent.node.suppressed ++ [child.node] }
      .relations
  | _ => parent.setCause (.owned child.node)

def splitHeader (header : Text) : Text × Option Text :=
  match header.cut? ": ".toList with
  | some (name, message) => (name, some message)
  | none => (header, none)

def ofHeader (codec : Codec) (depth : Nat) (relation : Relation) (id : Nat) (header : Text) :
    OpenFailure :=
  let (shown, message) := splitHeader header
  let typeName := (shown.after? codec.config.indicator).getD shown
  let origin :=
    if codec.resolver.resolves typeName then .resolved else .surrogate codec.config.indicator
  ⟨⟨depth, relation, { Failure.ofType id typeName with message, origin }⟩, .message⟩

/-- The failure with one more line in its message, if it has one and the line does not end it. -/
def continueMessage? (codec : Codec) (f : OpenFailure) (line : Text) : Option OpenFailure :=
  match f.phase, f.node.message with
  | .message, some message =>
    if Mark.endsMessage f.depth line then none
    else some (f.update { f.node with message := some (message ++ codec.config.terminator ++ line) }
      .message)
  | _, _ => none

def addFrames (f : OpenFailure) (frames : List Frame) (phase : Phase) : OpenFailure :=
  f.update { f.node with frames := f.node.frames ++ frames } phase

end OpenFailure

end Stacktrace
