import Stacktrace.Failure.Basic

/-!
Ways through a failure graph: along owned causes, one source at a time, and by identity. Owned
causes can also be taken from an iterator, one after the other (`CauseChain`).
-/

namespace Stacktrace
variable {ι : Type}

namespace Failure

/-- A failure and its owned causes, outermost first. -/
def causeChain : Failure ι → List (Failure ι)
  | f@⟨_, _, _, _, _, _, .owned c⟩ => f :: causeChain c
  | f => [f]

def rootCause : Failure ι → Failure ι
  | ⟨_, _, _, _, _, _, .owned c⟩ => rootCause c
  | f => f

def source? (f : Failure ι) : Option (Failure ι) := f.cause.owned?

theorem sizeOf_lt_of_source? {f c : Failure ι} (h : f.source? = some c) : sizeOf c < sizeOf f := by
  obtain ⟨_, _, _, _, _, _, _ | c' | _⟩ := f <;> simp [source?, Cause.owned?] at h
  subst h
  simp +arith

def sources (f : Failure ι) : List (Failure ι) :=
  match _h : f.source? with
  | none => []
  | some c => c :: sources c
termination_by sizeOf f
decreasing_by exact sizeOf_lt_of_source? _h

mutual

/-- The first failure with an identity: the failure itself, then in its cause, then in the failures
suppressed beside it. -/
def find? [DecidableEq ι] (id : ι) : Failure ι → Option (Failure ι)
  | f@⟨own, _, _, _, _, suppressed, cause⟩ =>
    if own = id then some f else findCause? id cause <|> findIn? id suppressed

def findCause? [DecidableEq ι] (id : ι) : Cause ι (Failure ι) → Option (Failure ι)
  | .owned c => find? id c
  | _ => none

def findIn? [DecidableEq ι] (id : ι) : List (Failure ι) → Option (Failure ι)
  | [] => none
  | f :: fs => find? id f <|> findIn? id fs

end

/-- The failure that a link leads to, if it is part of the graph. -/
def resolve? [DecidableEq ι] (link : BackRef ι) (f : Failure ι) : Option (Failure ι) :=
  f.find? link.target

theorem findIn?_eq_findSome? [DecidableEq ι] (id : ι) (fs : List (Failure ι)) :
    findIn? id fs = fs.findSome? (find? id) := by
  induction fs with
  | nil => rfl
  | cons f fs ih => cases h : find? id f <;> simp [findIn?, h, ih]

end Failure

/-- An iterator over a failure and its owned causes. Links are not followed. -/
structure CauseChain (ι : Type) where
  /-- The failure that comes next. -/
  next : Option (Failure ι)

namespace CauseChain

def start (f : Failure ι) : CauseChain ι := ⟨some f⟩

def next? (c : CauseChain ι) : Option (Failure ι × CauseChain ι) :=
  c.next.map fun f => (f, ⟨f.source?⟩)

def remaining (c : CauseChain ι) : List (Failure ι) := c.next.elim [] Failure.causeChain

theorem remaining_eq_cons {c rest : CauseChain ι} {f : Failure ι} (h : c.next? = some (f, rest)) :
    c.remaining = f :: rest.remaining := by
  obtain ⟨_ | ⟨id, typeName, message, frames, origin, suppressed, cause⟩⟩ := c
  · cases h
  · cases h
    cases cause <;> rfl

def items (c : CauseChain ι) : List (Failure ι) :=
  match _h : c.next? with
  | none => []
  | some (f, rest) => f :: items rest
termination_by c.remaining.length
decreasing_by
  rw [remaining_eq_cons _h]
  exact Nat.lt_succ_self _

theorem items_eq_remaining (c : CauseChain ι) : c.items = c.remaining := by
  fun_induction items c with
  | case1 c h =>
    obtain ⟨_ | f⟩ := c
    · rfl
    · cases h
  | case2 c f rest h ih => rw [ih, remaining_eq_cons h]

theorem items_start (f : Failure ι) : (start f).items = f.causeChain := items_eq_remaining _

end CauseChain
end Stacktrace
