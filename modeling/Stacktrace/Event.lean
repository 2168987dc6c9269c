import Stacktrace.Failure.Walk
import Stacktrace.Trace.Error

/-!
Structured log events: one for each failure of a graph, in the order of the walk, one for each link
back, right after the failure that holds it, and one for a text that could not be read.
-/

namespace Stacktrace
variable {ι : Type}

inductive Level
  | error
  | warn
  | info
  | debug
  | trace
deriving DecidableEq

def Level.name : Level → String
  | error => "ERROR"
  | warn => "WARN"
  | info => "INFO"
  | debug => "DEBUG"
  | trace => "TRACE"

structure TraceOptions where
  includeFrames : Bool := true

inductive Event
  | failure (level : Level) (depth : Nat) (relation : Relation) (typeName : Text)
      (message frames : Option Text)
  | circular (level : Level) (depth : Nat) (display : Text)
  | unreadable (error : DecodeError)
deriving DecidableEq

inductive FieldValue
  | number (n : Nat)
  | text (t : Text)

namespace Event

def level : Event → Level
  | failure level .. | circular level .. => level
  | unreadable _ => .warn

/-- The fields of an event under their names. A field without a value is left out. -/
def fields : Event → List (String × FieldValue)
  | failure _ depth relation typeName message frames =>
    [("depth", .number depth), ("relation", .text relation.name.toList),
      ("type_name", .text typeName)]
      ++ (message.map fun t => ("message", .text t)).toList
      ++ (frames.map fun t => ("frames", .text t)).toList
  | circular _ depth display =>
    [("depth", .number depth), ("relation", .text "circular".toList), ("message", .text display)]
  | unreadable error =>
    let shown := error.message
    (error.line?.map fun n => ("line", .number n)).toList
      ++ [("kind", .text error.kind.toList),
        ("message", .text s!"failed to decode stack trace: {shown}".toList)]

def ofResult {α : Type} : Except DecodeError α → List Event
  | .ok _ => []
  | .error e => [unreadable e]

end Event

def Failure.joinedFrames (f : Failure ι) : Text := "; ".toList.intercalate (f.frames.map Frame.render)

def Visit.events (level : Level) (options : TraceOptions) (v : Visit ι) : List Event :=
  let frames := if options.includeFrames then some v.node.joinedFrames else none
  .failure level v.depth v.relation v.node.typeName v.node.message frames
    :: (v.node.cause.backRef?.map fun link => .circular level v.depth link.display).toList

def Failure.trace (level : Level) (options : TraceOptions) (f : Failure ι) : List Event :=
  f.walk.flatMap (Visit.events level options)

end Stacktrace
