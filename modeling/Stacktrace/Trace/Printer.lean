import Stacktrace.Failure.Basic
import Stacktrace.Text.Lines
import Stacktrace.Trace.Codec
import Stacktrace.Trace.Mark
import Stacktrace.Trace.OpenTexts

/-!
Writing a failure graph. Each failure gives a row for its header and one for each frame, then the
rows of its suppressed failures, one tab deeper, and those of its cause. A link back is written as
a circular reference with the display text of the innermost failure on the way down from the root
that has the identity of its target; the text that the link keeps serves where there is none.
`rows` says so by recursion; `write` finds these texts in one table that it keeps as it goes along.
-/

namespace Stacktrace
variable {ι : Type}

/-- The display texts of the failures on the way down from the root, innermost first. -/
abbrev Scope (ι : Type) := List (ι × Text)

namespace Failure

def scopeEntry (f : Failure ι) : ι × Text := (f.id, f.displayText)

def frameRow (depth : Nat) (f : Frame) : Text :=
  Mark.indent depth ++ '\t' :: (Mark.atToken ++ f.render)

def suppressedRow (depth : Nat) (f : Failure ι) : Text :=
  Mark.indent depth ++ '\t' :: (Mark.suppressedToken ++ f.displayText)

def causeRow (depth : Nat) (f : Failure ι) : Text :=
  Mark.indent depth ++ Mark.causedByToken ++ f.displayText

def circularRow [DecidableEq ι] (scope : Scope ι) (depth : Nat) (link : BackRef ι) : Text :=
  Mark.indent depth ++ '\t' :: (Mark.circularToken ++ (scope.lookup link.target).getD link.display
    ++ Mark.circularClose)

mutual

/-- The rows of a failure below its header. -/
def bodyRows [DecidableEq ι] (scope : Scope ι) (depth : Nat) : Failure ι → List Text
  | f@⟨_, _, _, frames, _, suppressed, cause⟩ =>
    let scope := f.scopeEntry :: scope
    frames.map (frameRow depth) ++ suppressedRows scope depth suppressed
      ++ causeRows scope depth cause

def suppressedRows [DecidableEq ι] (scope : Scope ι) (depth : Nat) : List (Failure ι) → List Text
  | [] => []
  | f :: fs => suppressedRow depth f :: bodyRows scope (depth + 1) f
      ++ suppressedRows scope depth fs

def causeRows [DecidableEq ι] (scope : Scope ι) (depth : Nat) :
    Cause ι (Failure ι) → List Text
  | .none => []
  | .owned c => causeRow depth c :: bodyRows scope depth c
  | .backRef link => [circularRow scope depth link]

end

def rows [DecidableEq ι] (f : Failure ι) : List Text := f.displayText :: f.bodyRows [] 0

mutual

/-- The rows of all that hangs off a failure, and the table of texts when they are written. -/
def writeRelations [DecidableEq ι] (depth : Nat) :
    Failure ι → OpenTexts ι → List Text × OpenTexts ι
  | f@⟨id, _, _, _, _, suppressed, cause⟩, opened =>
    let (shadowed, opened) := opened.put id f.displayText
    let (beside, opened) := writeSuppressed depth suppressed opened
    let (below, opened) := writeCause depth cause opened
    (beside ++ below, opened.leave id shadowed)

def writeSuppressed [DecidableEq ι] (depth : Nat) :
    List (Failure ι) → OpenTexts ι → List Text × OpenTexts ι
  | [], opened => ([], opened)
  | f :: fs, opened =>
    let (below, opened) := writeRelations (depth + 1) f opened
    let (more, opened) := writeSuppressed depth fs opened
    (suppressedRow depth f :: (f.frames.map (frameRow (depth + 1)) ++ below) ++ more, opened)

def writeCause [DecidableEq ι] (depth : Nat) :
    Cause ι (Failure ι) → OpenTexts ι → List Text × OpenTexts ι
  | .none, opened => ([], opened)
  | .owned c, opened =>
    let (below, opened) := writeRelations depth c opened
    (causeRow depth c :: (c.frames.map (frameRow depth) ++ below), opened)
  | .backRef link, opened => ([circularRow opened depth link], opened)

end

def write [DecidableEq ι] (f : Failure ι) : List Text :=
  f.displayText :: (f.frames.map (frameRow 0) ++ (f.writeRelations 0 []).1)

def print [DecidableEq ι] (config : Config) (f : Failure ι) : Text :=
  Text.ofRows config.terminator f.write

theorem suppressedRows_eq_flatMap [DecidableEq ι] (scope : Scope ι) (depth : Nat)
    (fs : List (Failure ι)) : suppressedRows scope depth fs =
      fs.flatMap fun f => suppressedRow depth f :: bodyRows scope (depth + 1) f := by
  induction fs with
  | nil => rfl
  | cons f fs ih => simp [suppressedRows, ih]

end Failure

def Codec.encode [DecidableEq ι] (codec : Codec) (f : Failure ι) : Text := f.print codec.config

end Stacktrace
