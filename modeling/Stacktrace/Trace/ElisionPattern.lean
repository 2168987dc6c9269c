import Mathlib.Computability.RegularExpressions
import Stacktrace.Text.Decimal
import Stacktrace.Trace.Mark

/-!
The count of an elision by its pattern. The pattern is matched with a whole text and captures the
digits in it; these are read as a number of 32 bits, and one that is out of range counts as the
greatest. What finds the digits is left open: `FoundBy` says which functions match the pattern.
-/

namespace Stacktrace

/-- A regular expression of which one part is captured. -/
structure CapturePattern where
  before : RegularExpression Char
  captured : RegularExpression Char
  after : RegularExpression Char

namespace CapturePattern
open RegularExpression

/-- Matches one text alone. -/
def literally : Text → RegularExpression Char
  | [] => 1
  | c :: t => char c * literally t

/-- Matches each of some characters. -/
def oneOf : List Char → RegularExpression Char
  | [] => 0
  | c :: cs => char c + oneOf cs

/-- Whether a function gives the part that is captured in each text that matches as a whole, and
nothing for any other text. -/
def FoundBy (p : CapturePattern) (capture? : Text → Option Text) : Prop :=
  ∀ t part, capture? t = some part ↔ ∃ a b, t = a ++ part ++ b ∧
    a ∈ p.before.matches' ∧ part ∈ p.captured.matches' ∧ b ∈ p.after.matches'

end CapturePattern

namespace Mark
open CapturePattern RegularExpression

def digitPattern : RegularExpression Char := oneOf "0123456789".toList

def elisionPattern : CapturePattern where
  before := star (char '\t') * char '\t' * literally "... ".toList
  captured := digitPattern * star digitPattern
  after := literally " more".toList

/-- The count of an elision, whose digits `capture?` finds. -/
def elisionCount? (capture? : Text → Option Text) (t : Text) : Option UInt32 :=
  (capture? t).map fun digits => (Text.toUInt32? digits).getD 4294967295

/-- Finds the digits of an elision by what stands around them. -/
def elisionDigits? (t : Text) : Option Text :=
  if t.head? = some '\t' then
    ((Text.after? (t.dropWhile (· = '\t')) "... ".toList).bind (·.before? " more".toList)).filter
      fun digits => digits ≠ [] && digits.all Char.isDigit
  else none

end Mark
end Stacktrace
