import Stacktrace.Text.Decimal

/-!
The lines of a trace other than the first. Behind the tabs of its depth each line is marked as a
frame, an elision of frames, the header of a suppressed failure, a circular reference or the header
of a cause. A line that bears such a mark at the depth of a failure or at a smaller one ends the
message of that failure; every other line goes on with it.
-/

namespace Stacktrace

inductive Mark
  | frame (text : Text)
  | elision (count : Nat)
  | suppressed (header : Text)
  | circular (text : Text)
  | causedBy (header : Text)
deriving DecidableEq

namespace Mark

/-- The tabs that lines at a depth start with. -/
def indent (depth : Nat) : Text := List.replicate depth '\t'

def atToken : Text := "at ".toList

def suppressedToken : Text := "Suppressed: ".toList

def circularToken : Text := "[CIRCULAR REFERENCE:".toList

def circularClose : Text := "]".toList

def causedByToken : Text := "Caused by: ".toList

/-- The largest count of an elision; a larger number counts as this one. -/
def maxElided : Nat := 4294967295

/-- The count of an elision: one or more tabs, then `... N more`. -/
def elided? (t : Text) : Option Nat :=
  if t.head? = some '\t' then
    (Text.after? (t.dropWhile (· = '\t')) "... ".toList).bind fun t =>
      (t.before? " more".toList).bind fun digits => (Text.toNat? digits).map (min · maxElided)
  else none

/-- The mark of a line from which the tabs of its depth have been taken. -/
def ofRest? (t : Text) : Option Mark :=
  (t.after? ('\t' :: atToken)).map frame
    <|> (elided? t).map elision
    <|> (t.after? ('\t' :: suppressedToken)).map suppressed
    <|> (t.after? ('\t' :: circularToken)).map circular
    <|> (t.after? causedByToken).map causedBy

/-- The mark that a line bears at a depth. -/
def ofLine? (depth : Nat) (line : Text) : Option Mark := (line.after? (indent depth)).bind ofRest?

/-- Whether a line ends the message of a failure at a depth. The tabs in front of the line say at
which depths it could bear its mark. -/
def endsMessage (depth : Nat) (line : Text) : Bool :=
  let tabs := (line.takeWhile (· = '\t')).length
  let rest : Text := line.dropWhile (· = '\t')
  (1 ≤ tabs && tabs ≤ depth + 1 &&
      (rest.startsWith atToken || rest.startsWith suppressedToken || rest.startsWith circularToken))
    || (tabs ≤ depth && rest.startsWith causedByToken)
    || (1 ≤ tabs && (elided? ('\t' :: rest)).isSome)

end Mark
end Stacktrace
