import Stacktrace.Transform.Basic

/-!
A default transform, handed to the places where failures are raised again.
-/

namespace Stacktrace

structure Context (ι : Type) where
  default? : Option (Transform ι) := none

namespace Context
variable {ι : Type}

/-- The context with a new default, and the default it had. -/
def setDefault (c : Context ι) (t : Transform ι) : Context ι × Option (Transform ι) :=
  ({ c with default? := some t }, c.default?)

/-- The context without a default, and the default it had. -/
def clearDefault (c : Context ι) : Context ι × Option (Transform ι) :=
  ({ c with default? := none }, c.default?)

/-- The context that a child task starts with. -/
def inherit (c : Context ι) : Context ι := c

/-- The graph after the default transform, or unchanged without one. The root stays unless a cause
takes its place. -/
def transform [DecidableEq ι] (c : Context ι) (f : Failure ι) : Failure ι :=
  match c.default? with
  | none => f
  | some t => t.applyKeepingRoot f

def rethrow [DecidableEq ι] {α : Type} (c : Context ι) (f : Failure ι) : Except (Failure ι) α :=
  .error (c.transform f)

end Context
end Stacktrace
