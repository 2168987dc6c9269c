import Stacktrace.Text.Decimal

/-!
Stack frames and the line of text that a frame is written as: `unit.operation(location)`, where
the location is `Native Method`, `Unknown Source`, `label:line` or `label`.
-/

namespace Stacktrace

inductive LineNumber
  | number (n : Int32)
  | native
  | unavailable
deriving DecidableEq

/-- The line number of an integer that fits into 32 bits. -/
def LineNumber.ofInt? (n : Int) : Option LineNumber :=
  if -2147483648 ≤ n ∧ n ≤ 2147483647 then some (.number (Int32.ofInt n)) else none

structure Frame where
  unit : Text
  operation : Text
  label : Option Text
  line : LineNumber
deriving DecidableEq

namespace Frame

def nativeMethod : Text := "Native Method".toList

def unknownSource : Text := "Unknown Source".toList

def isNative (f : Frame) : Bool := f.line = .native

def qualified (f : Frame) : Text := f.unit ++ '.' :: f.operation

def location : Option Text → LineNumber → Text
  | _, .native => nativeMethod
  | none, _ => unknownSource
  | some label, .number n => label ++ ':' :: Text.ofInt n.toInt
  | some label, .unavailable => label

def render (f : Frame) : Text := f.qualified ++ '(' :: location f.label f.line ++ [')']

end Frame
end Stacktrace
