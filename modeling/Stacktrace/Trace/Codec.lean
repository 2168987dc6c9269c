import Stacktrace.Resolver
import Stacktrace.Text.Quoted

/-!
The settings of the trace format, and the codec that pairs them with the names of the types that
its reader knows.
-/

namespace Stacktrace

structure Config where
  /-- Ends every line that is written, and parts the lines of a message that is read. -/
  terminator : Text := ['\n']
  /-- Stands in front of the type name of a surrogate. -/
  indicator : Text := []
deriving DecidableEq

structure Codec where
  config : Config := {}
  resolver : Resolver := .any

def Codec.describe (codec : Codec) : String :=
  let terminator := String.ofList codec.config.terminator.quoted
  let indicator := String.ofList codec.config.indicator.quoted
  s!"Codec \x7b config: CodecConfig \x7b line_terminator: {terminator}, "
    ++ s!"surrogate_indicator: {indicator} \x7d, .. \x7d"

end Stacktrace
