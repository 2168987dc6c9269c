import Stacktrace.Failure.Basic

/-!
Places in a graph: the hops that lead there from the root, and what happens there. Main statement:
after an update the failure at the place is the updated one.
-/

namespace Stacktrace

inductive Hop
  | cause
  | suppressed (index : Nat)
deriving DecidableEq

namespace Failure
variable {ι : Type}

def hop? (f : Failure ι) : Hop → Option (Failure ι)
  | .cause => f.cause.owned?
  | .suppressed i => f.suppressed[i]?

def at? (f : Failure ι) : List Hop → Option (Failure ι)
  | [] => some f
  | h :: hops => (f.hop? h).bind (·.at? hops)

/-- The failure with another one behind a hop that leads somewhere. -/
def putBehind (f : Failure ι) (g : Failure ι) : Hop → Failure ι
  | .cause => { f with cause := .owned g }
  | .suppressed i => { f with suppressed := f.suppressed.set i g }

def updateAt? (change : Failure ι → Failure ι) (f : Failure ι) : List Hop → Option (Failure ι)
  | [] => some (change f)
  | h :: hops => do
    let below ← f.hop? h
    some (f.putBehind (← below.updateAt? change hops) h)

theorem hop?_putBehind {f g : Failure ι} {h : Hop} (there : (f.hop? h).isSome) :
    (f.putBehind g h).hop? h = some g := by
  cases h with
  | cause => rfl
  | suppressed i =>
    simp only [hop?, putBehind] at there ⊢
    simp_all

theorem at?_updateAt? {change : Failure ι → Failure ι} {f g : Failure ι} {hops : List Hop}
    (h : f.updateAt? change hops = some g) : g.at? hops = (f.at? hops).map change := by
  induction hops generalizing f g with
  | nil => cases h; rfl
  | cons hop hops ih =>
    simp only [updateAt?, bind, Option.bind_eq_some_iff] at h
    obtain ⟨below, hbelow, changed, hchanged, ⟨⟩⟩ := h
    simp [at?, hop?_putBehind (by simp [hbelow] : (f.hop? hop).isSome), hbelow, ih hchanged]

end Failure
end Stacktrace
