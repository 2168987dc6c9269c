import Stacktrace.Text.AsciiCase
import Stacktrace.Transform.Builder

/-!
Rules that have a name: what a transform can be told to do without writing a function.
-/

namespace Stacktrace
variable {ι : Type}

inductive UnwrapRule
  | always
  | never
  | typeIs (name : Text)
  | typeStarts (start : Text)
  | messageIncludes (piece : Text)
  | noMessage
  | noFrames
  | noSuppressed
  | noCause
  | causeTypeIs (name : Text)
  | surrogate

def UnwrapRule.holds (f : Failure ι) : UnwrapRule → Bool
  | always => true
  | never => false
  | typeIs name => f.typeName = name
  | typeStarts start => f.typeName.startsWith start
  | messageIncludes piece => f.message.any (·.includes piece)
  | noMessage => f.message.isNone
  | noFrames => f.frames.isEmpty
  | noSuppressed => f.suppressed.isEmpty
  | noCause => f.cause.isNone
  | causeTypeIs name => f.source?.any (·.typeName = name)
  | surrogate => f.isSurrogate

inductive MessageRule
  | const (message : Text)
  | append (more : Text)
  | upper
  | clear
  | summary

/-- Type, message, counts and cause of a failure, parted by bars. -/
def Failure.summary (f : Failure ι) : Text :=
  let cause := match f.cause with
    | .none => "none".toList
    | .owned c => "owned ".toList ++ c.displayText
    | .backRef link => "ref ".toList ++ link.display
  ['|'].intercalate [f.displayType, f.message.getD ['-'], Text.ofNat f.frames.length,
    Text.ofNat f.suppressed.length, cause]

def MessageRule.messageOf (f : Failure ι) : MessageRule → Option Text
  | const message => some message
  | append more => f.message.map (· ++ more)
  | upper => f.message.map Text.upper
  | clear => none
  | summary => some f.summary

inductive FrameListRule
  | reverse
  | take (n : Nat)
  | skip (n : Nat)
  | dedup
  | clear
  | keep
  | push (frame : Frame)

/-- The frames that differ from the one before them. -/
def Frame.dedup : List Frame → List Frame
  | f :: g :: fs => if f = g then dedup (g :: fs) else f :: dedup (g :: fs)
  | fs => fs

def FrameListRule.edit (frames : List Frame) : FrameListRule → List Frame
  | reverse => frames.reverse
  | take n => frames.take n
  | skip n => frames.drop n
  | dedup => Frame.dedup frames
  | clear => []
  | keep => frames
  | push frame => frames ++ [frame]

inductive FrameRule
  | dropAll
  | dropNative
  | dropUnit (start : Text)
  | keepQualified (start : Text)
  | prependUnit (start : Text)
  | setOperation (operation : Text)
  | setLabel (label : Option Text)
  | setLine (line : LineNumber)
  | keep

def FrameRule.map? (frame : Frame) : FrameRule → Option Frame
  | dropAll => none
  | dropNative => if frame.isNative then none else some frame
  | dropUnit start => if frame.unit.startsWith start then none else some frame
  | keepQualified start => if frame.qualified.startsWith start then some frame else none
  | prependUnit start => some { frame with unit := start ++ frame.unit }
  | setOperation operation => some { frame with operation }
  | setLabel label => some { frame with label }
  | setLine line => some { frame with line }
  | keep => some frame

/-- A call on a builder with a named rule. -/
inductive NamedCall
  | replaceMessage (rule : MessageRule)
  | unwrapWhen (rule : UnwrapRule)
  | editFrames (rule : FrameListRule)
  | mapFrames (rule : FrameRule)
  | finish

def NamedCall.toCall : NamedCall → Transform.Builder.Call ι
  | replaceMessage rule => .replaceMessage (MessageRule.messageOf · rule)
  | unwrapWhen rule => .unwrapWhen (UnwrapRule.holds · rule)
  | editFrames rule => .editFrames (FrameListRule.edit · rule)
  | mapFrames rule => .mapFrames (FrameRule.map? · rule)
  | finish => .finish

end Stacktrace
