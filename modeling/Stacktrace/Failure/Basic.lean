import Stacktrace.Frame.Basic

/-!
Failure graphs. A failure has a type, an optional message, its frames, the failures that were
suppressed beside it and at most one cause, which is a failure of its own or a link back to a
failure that is already part of the graph. Failures and links name each other by identities of an
arbitrary type. `Failure.induct` is induction over suppressed failures and owned causes at once.
-/

namespace Stacktrace

/-- A link to a failure, with the display text that the failure had when the link was made. -/
structure BackRef (ι : Type) where
  target : ι
  display : Text
deriving DecidableEq

inductive Cause (ι α : Type)
  | none
  | owned (node : α)
  | backRef (link : BackRef ι)
deriving DecidableEq

/-- Whether the type of a failure was known where it was read. An unknown type is written with an
indicator in front of its name. -/
inductive Origin
  | resolved
  | surrogate (indicator : Text)
deriving DecidableEq

structure Failure (ι : Type) where
  id : ι
  typeName : Text
  message : Option Text
  frames : List Frame
  origin : Origin
  suppressed : List (Failure ι)
  cause : Cause ι (Failure ι)

namespace Cause
variable {ι α : Type}

def isNone : Cause ι α → Bool
  | .none => true
  | _ => false

def owned? : Cause ι α → Option α
  | .owned node => some node
  | _ => Option.none

def backRef? : Cause ι α → Option (BackRef ι)
  | .backRef link => some link
  | _ => Option.none

end Cause

namespace Failure
variable {ι : Type}

@[elab_as_elim, induction_eliminator]
theorem induct {motive : Failure ι → Prop}
    (node : ∀ f : Failure ι, (∀ s ∈ f.suppressed, motive s) →
      (∀ c, f.cause = .owned c → motive c) → motive f) (f : Failure ι) : motive f := by
  refine Failure.rec (motive_1 := motive) (motive_2 := fun fs => ∀ s ∈ fs, motive s)
    (motive_3 := fun c => ∀ d, c = .owned d → motive d) ?_ ?_ ?_ ?_ ?_ ?_ f
  · exact fun _ _ _ _ _ _ _ hs hc => node _ hs hc
  · simp
  · intro h t ih1 ih2 s hs
    cases hs with
    | head => exact ih1
    | tail _ hs => exact ih2 s hs
  · simp
  · rintro d ih _ ⟨⟩
    exact ih
  · simp

def ofType (id : ι) (typeName : Text) : Failure ι := ⟨id, typeName, none, [], .resolved, [], .none⟩

def isSurrogate (f : Failure ι) : Bool := f.origin ≠ .resolved

def displayType (f : Failure ι) : Text :=
  match f.origin with
  | .resolved => f.typeName
  | .surrogate indicator => indicator ++ f.typeName

/-- The header of a failure, which is also what a link back to it shows. -/
def displayText (f : Failure ι) : Text :=
  match f.message with
  | none => f.displayType
  | some message => f.displayType ++ ": ".toList ++ message

def link (f : Failure ι) : BackRef ι := ⟨f.id, f.displayText⟩

/-- The written form of a numeric identity. -/
def tag (id : Nat) : Text := '#' :: Text.ofNat id

end Failure
end Stacktrace
