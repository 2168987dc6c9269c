import Stacktrace.Failure.Basic

/-!
The walk through a graph in the order in which it is written: a failure, then each failure
suppressed beside it with all that hangs off it, then the owned cause. The depth of a visit counts
the suppressed edges above it.
-/

namespace Stacktrace

/-- How a failure hangs off the one above it. -/
inductive Relation
  | root
  | cause
  | suppressed
deriving DecidableEq

def Relation.name : Relation → String
  | .root => "root"
  | .cause => "cause"
  | .suppressed => "suppressed"

structure Visit (ι : Type) where
  depth : Nat
  relation : Relation
  node : Failure ι

namespace Failure
variable {ι : Type}

mutual

/-- The visits of a failure that stands at a depth and in a relation, and of all below it. -/
def visits (depth : Nat) (relation : Relation) : Failure ι → List (Visit ι)
  | f@⟨_, _, _, _, _, suppressed, cause⟩ =>
    ⟨depth, relation, f⟩ :: (visitsIn (depth + 1) suppressed ++ causeVisits depth cause)

def causeVisits (depth : Nat) : Cause ι (Failure ι) → List (Visit ι)
  | .owned c => visits depth .cause c
  | _ => []

def visitsIn (depth : Nat) : List (Failure ι) → List (Visit ι)
  | [] => []
  | f :: fs => visits depth .suppressed f ++ visitsIn depth fs

end

def walk (f : Failure ι) : List (Visit ι) := f.visits 0 .root

theorem visitsIn_eq_flatMap (depth : Nat) (fs : List (Failure ι)) :
    visitsIn depth fs = fs.flatMap (visits depth .suppressed) := by
  induction fs with
  | nil => rfl
  | cons f fs ih => simp [visitsIn, ih]

end Failure
end Stacktrace
