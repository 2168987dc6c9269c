import Stacktrace.Failure.Basic

/-!
Two graphs are alike when they differ in identities only: type names, messages, frames, origins
and shape agree, and links show the same display text.
-/

namespace Stacktrace.Failure
variable {ι κ : Type}

mutual

def alike : Failure ι → Failure κ → Bool
  | ⟨_, t, m, fs, o, ss, c⟩, ⟨_, t', m', fs', o', ss', c'⟩ =>
    t = t' && m = m' && fs = fs' && o = o' && alikeIn ss ss' && alikeCause c c'

def alikeCause : Cause ι (Failure ι) → Cause κ (Failure κ) → Bool
  | .none, .none => true
  | .owned f, .owned g => alike f g
  | .backRef l, .backRef k => l.display = k.display
  | _, _ => false

def alikeIn : List (Failure ι) → List (Failure κ) → Bool
  | [], [] => true
  | f :: fs, g :: gs => alike f g && alikeIn fs gs
  | _, _ => false

end

end Stacktrace.Failure
