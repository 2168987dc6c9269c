import Stacktrace.Trace.Error
import Stacktrace.Trace.OpenFailure

/-!
Reading a failure graph, one line at a time. The state holds the failure that is being read and
the failures that it hangs off, innermost first. A line goes to the innermost of them that can take
it; each failure that cannot is thereby read to its end and becomes part of the next one.
-/

namespace Stacktrace

structure ParserState where
  current : OpenFailure
  /-- The failures that the current one hangs off, innermost first. -/
  parents : List OpenFailure
  /-- The identity of the next failure. -/
  next : Nat

namespace ParserState

/-- The open failure that a circular reference of the current one names: the innermost above it
with that display text, or else the current one itself. -/
def target? (s : ParserState) (display : Text) : Option (Failure Nat) :=
  ((s.parents ++ [s.current]).map OpenFailure.node).find? (·.displayText = display)

/-- Goes on with a circular reference: closes it if its text ends here and names an open failure. -/
def refer (s : ParserState) (pending : PendingReference) : ParserState :=
  match pending.text.before? Mark.circularClose with
  | none => { s with current.phase := .circular pending }
  | some display =>
    match s.target? display with
    | some f => { s with current := s.current.setCause (.backRef f.link) }
    | none =>
      let unresolved := pending.unresolved <|> some display
      { s with current.phase := .circular { pending with unresolved } }

/-- Copies the last frames of the failure that the current one hangs off. -/
def expand (s : ParserState) (line count : Nat) : Except DecodeError ParserState :=
  match s.parents with
  | [] => .error (.danglingElision line count)
  | parent :: _ =>
    let shared := parent.node.frames
    if count ≤ shared.length then
      .ok { s with current := s.current.addFrames (shared.drop (shared.length - count)) .relations }
    else .error (.danglingElision line count)

def descend (codec : Codec) (s : ParserState) (depth : Nat) (relation : Relation) (header : Text) :
    ParserState :=
  ⟨.ofHeader codec depth relation s.next header, s.current :: s.parents, s.next + 1⟩

/-- Takes a line with a mark at the depth of the current failure, if the mark can follow there. -/
def takeMark? (codec : Codec) (line : Nat) (s : ParserState) :
    Mark → Option (Except DecodeError ParserState)
  | .frame text =>
    if s.current.phase.takesFrames then
      match Frame.read text with
      | .error e => some (.error (.malformedFrame line e))
      | .ok frame => some (.ok { s with current := s.current.addFrames [frame] .frames })
    else none
  | .elision count => if s.current.phase.takesFrames then some (s.expand line count) else none
  | .suppressed header =>
    if s.current.phase.takesRelations then
      some (.ok (s.descend codec (s.current.depth + 1) .suppressed header))
    else none
  | .circular text =>
    if s.current.phase.takesRelations then some (.ok (s.refer ⟨line, text, text, none⟩)) else none
  | .causedBy header =>
    if s.current.phase.takesRelations then
      some (.ok (s.descend codec s.current.depth .cause header))
    else none

/-- Takes a line for the current failure, if it can follow there. -/
def take? (codec : Codec) (line : Nat) (text : Text) (s : ParserState) :
    Option (Except DecodeError ParserState) :=
  match s.current.phase with
  | .circular pending =>
    some (.ok (s.refer { pending with text := pending.text ++ codec.config.terminator ++ text }))
  | _ =>
    match s.current.continueMessage? codec text with
    | some current => some (.ok { s with current })
    | none => (Mark.ofLine? s.current.depth text).bind (s.takeMark? codec line)

/-- Gives a line to the innermost open failure that can take it. -/
def feed (codec : Codec) (line : Nat) (text : Text) (next : Nat) :
    OpenFailure → List OpenFailure → Except DecodeError ParserState
  | current, [] =>
    (take? codec line text ⟨current, [], next⟩).getD (.error (.unknownLineFormat line))
  | current, parent :: outer =>
    match take? codec line text ⟨current, parent :: outer, next⟩ with
    | some result => result
    | none => feed codec line text next (parent.attach current) outer

def step (codec : Codec) (line : Nat) (text : Text) (s : ParserState) :
    Except DecodeError ParserState :=
  feed codec line text s.next s.current s.parents

def run (codec : Codec) : Nat → List Text → ParserState → Except DecodeError ParserState
  | _, [], s => .ok s
  | line, text :: rest, s => (s.step codec line text).bind (run codec (line + 1) rest)

theorem run_append (codec : Codec) (line : Nat) (a b : List Text) (s : ParserState) :
    run codec line (a ++ b) s = (run codec line a s).bind (run codec (line + a.length) b) := by
  induction a generalizing line s with
  | nil => rfl
  | cons text a ih =>
    cases h : s.step codec line text with
    | error e => simp [run, h, Except.bind]
    | ok s => simp [run, h, Except.bind, ih, Nat.add_comm, Nat.add_left_comm]

/-- The root, with every open failure read to its end. -/
def close : OpenFailure → List OpenFailure → Failure Nat
  | current, [] => current.node
  | current, parent :: outer => close (parent.attach current) outer

def finish (s : ParserState) : Except DecodeError (Failure Nat) :=
  match s.current.phase with
  | .circular pending =>
    .error (.unresolvedCircularReference pending.line (pending.unresolved.getD pending.first))
  | _ => .ok (close s.current s.parents)

end ParserState

namespace Codec

/-- Reads lines into a graph, whose failures are numbered from `first` on in the order of their
headers. -/
def ofLines (codec : Codec) (first : Nat) : List Text → Except DecodeError (Failure Nat)
  | [] | [] :: _ => .error .emptyInput
  | header :: lines =>
    (ParserState.run codec 1 lines ⟨.ofHeader codec 0 .root first header, [], first + 1⟩).bind
      ParserState.finish

/-- Reads a text into a graph whose failures are numbered from `first` on. -/
def decodeFrom (codec : Codec) (first : Nat) (t : Text) : Except DecodeError (Failure Nat) :=
  codec.ofLines first t.lines

def decode (codec : Codec) (t : Text) : Except DecodeError (Failure Nat) := codec.decodeFrom 0 t

end Codec
end Stacktrace
