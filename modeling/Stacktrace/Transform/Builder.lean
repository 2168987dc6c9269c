import Stacktrace.Transform.Basic

/-!
Collecting the rules of a transform, one call at a time. Rules stay in the order of the calls. A
second message rule is refused, and so is every call once the transform has been finished; a call
that is refused changes nothing.
-/

namespace Stacktrace
variable {ι : Type}

inductive ConfigError
  | finished
  | messageRuleSet
deriving DecidableEq

def ConfigError.reason : ConfigError → String
  | .finished => "the transform has already been finished"
  | .messageRuleSet => "a message rule has already been set"

def ConfigError.message (e : ConfigError) : String :=
  "ambiguous transform configuration: " ++ e.reason

structure Transform.Builder (ι : Type) where
  rules : Transform ι := {}
  finished : Bool := false

namespace Transform.Builder

inductive Call (ι : Type)
  | replaceMessage (rule : Failure ι → Option Text)
  | unwrapWhen (rule : Failure ι → Bool)
  | editFrames (rule : List Frame → List Frame)
  | mapFrames (rule : Frame → Option Frame)
  | finish

def call (b : Builder ι) (c : Call ι) : Except ConfigError (Builder ι) :=
  if b.finished then .error .finished
  else
    match c with
    | .replaceMessage rule =>
      if b.rules.message.isSome then .error .messageRuleSet
      else .ok { b with rules.message := some rule }
    | .unwrapWhen rule => .ok { b with rules.unwraps := b.rules.unwraps ++ [rule] }
    | .editFrames rule => .ok { b with rules.frameLists := b.rules.frameLists ++ [rule] }
    | .mapFrames rule => .ok { b with rules.frames := b.rules.frames ++ [rule] }
    | .finish => .ok { b with finished := true }

def run (b : Builder ι) : List (Call ι) → List (Except ConfigError Unit) × Builder ι
  | [] => ([], b)
  | c :: cs =>
    match b.call c with
    | .error e => let (answers, b) := b.run cs; (.error e :: answers, b)
    | .ok b => let (answers, b) := b.run cs; (.ok () :: answers, b)

def describe (b : Builder ι) : String :=
  let finished := b.finished
  s!"TransformBuilder \x7b finished: {finished}, .. \x7d"

end Transform.Builder
end Stacktrace
