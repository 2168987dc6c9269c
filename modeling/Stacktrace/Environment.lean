import Stacktrace.Event
import Stacktrace.Text.AsciiCase
import Stacktrace.Text.Blank
import Stacktrace.Text.Utf8
import Stacktrace.Trace.Codec

/-!
Settings from environment variables. The value of a variable is bytes: where it has to be text and
is no UTF-8, the variable counts as unset; among the options of tracing, faults are replaced.
-/

namespace Stacktrace

structure Environment where
  terminator : Option (List UInt8) := none
  indicator : Option (List UInt8) := none
  tracing : Option (List UInt8) := none

namespace Environment

def terminatorNamed? (name : Text) : Option Text :=
  if name.sameIgnoringCase "lf".toList then some ['\n']
  else if name.sameIgnoringCase "crlf".toList then some ['\r', '\n']
  else none

def config (env : Environment) : Config :=
  let plain : Config := {}
  { terminator := ((env.terminator.bind Text.ofUtf8?).bind terminatorNamed?).getD plain.terminator
    indicator := (env.indicator.bind Text.ofUtf8?).getD plain.indicator }

def leavesFramesOut (option : Text) : Bool := option.trim.sameIgnoringCase "noframes".toList

/-- The options of tracing, which stand between commas. -/
def traceOptions (env : Environment) : TraceOptions :=
  let value := (env.tracing.map Text.ofUtf8Lossy).getD []
  ⟨!(value.splitOn ',').any leavesFramesOut⟩

end Environment
end Stacktrace
