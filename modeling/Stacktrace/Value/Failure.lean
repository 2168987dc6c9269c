import Stacktrace.Failure.Basic
import Stacktrace.Value.Basic

/-!
The plain values that write failure graphs whose identities are 64-bit words.
-/

namespace Stacktrace.Value

def ofId (id : UInt64) : Value := integer id.toNat

def toId? : Value → Option UInt64
  | integer (.ofNat n) => if h : n < UInt64.size then some (UInt64.ofNatLT n h) else none
  | _ => none

@[simp]
theorem toId?_ofId (id : UInt64) : (ofId id).toId? = some id := by
  have h : id.toNat < UInt64.size := id.toNat_lt
  simp [ofId, toId?, h]

def ofBackRef (link : BackRef UInt64) : Value :=
  object [("target".toList, ofId link.target), ("display".toList, text link.display)]

def toBackRef? : Value → Option (BackRef UInt64)
  | array [target, display] => do some ⟨← target.toId?, ← display.toText?⟩
  | object members => do
    some ⟨← field? members "target" toId?, ← field? members "display" toText?⟩
  | _ => none

/-- What the variant of a surrogate holds. -/
def ofIndicator (indicator : Text) : Value := object [("indicator".toList, text indicator)]

def toIndicator? : Value → Option Text
  | object members => field? members "indicator" toText?
  | _ => none

def ofOrigin : Origin → Value
  | .resolved => text "Resolved".toList
  | .surrogate indicator => object [("Surrogate".toList, ofIndicator indicator)]

def toOrigin? (v : Value) : Option Origin :=
  if v.bareVariant? = some "Resolved".toList then some .resolved
  else
    match v.variant? with
    | some (name, content) =>
      if name = "Surrogate".toList then content.toIndicator?.map .surrogate else none
    | none => none

mutual

def ofFailure : Failure UInt64 → Value
  | ⟨id, typeName, message, frames, origin, suppressed, cause⟩ =>
    object [("id".toList, ofId id), ("type_name".toList, text typeName),
      ("message".toList, ofOptionText message), ("frames".toList, array (frames.map ofFrame)),
      ("cause".toList, ofCause cause), ("suppressed".toList, array (ofFailures suppressed)),
      ("origin".toList, ofOrigin origin)]

def ofCause : Cause UInt64 (Failure UInt64) → Value
  | .none => text "None".toList
  | .owned c => object [("Owned".toList, ofFailure c)]
  | .backRef link => object [("BackRef".toList, ofBackRef link)]

def ofFailures : List (Failure UInt64) → List Value
  | [] => []
  | f :: fs => ofFailure f :: ofFailures fs

end

mutual

def toFailure? : Value → Option (Failure UInt64)
  | array [id, typeName, message, frames, cause, suppressed, origin] => do
    some ⟨← id.toId?, ← typeName.toText?, ← message.toOptionText?, ← frames.toList? toFrame?,
      ← origin.toOrigin?, ← toFailures? suppressed, ← toCause? cause⟩
  | object members => do
    some ⟨← field? members "id" toId?, ← field? members "type_name" toText?,
      ← optionField? members "message", ← field? members "frames" (toList? toFrame?),
      ← field? members "origin" toOrigin?, ← suppressedIn? members, ← causeIn? members⟩
  | _ => none

/-- The only member that holds a cause. -/
def causeIn? : List (Text × Value) → Option (Cause UInt64 (Failure UInt64))
  | [] => none
  | (name, v) :: rest =>
    if name = "cause".toList then (if (named rest "cause").isEmpty then toCause? v else none)
    else causeIn? rest

/-- The only member that holds suppressed failures. -/
def suppressedIn? : List (Text × Value) → Option (List (Failure UInt64))
  | [] => none
  | (name, v) :: rest =>
    if name = "suppressed".toList then
      (if (named rest "suppressed").isEmpty then toFailures? v else none)
    else suppressedIn? rest

def toCause? : Value → Option (Cause UInt64 (Failure UInt64))
  | text name => if name = "None".toList then some .none else none
  | object [(name, content)] =>
    if name = "Owned".toList then (toFailure? content).map .owned
    else if name = "BackRef".toList then (toBackRef? content).map .backRef
    else if (object [(name, content)]).bareVariant? = some "None".toList then some .none
    else none
  | _ => none

def toFailures? : Value → Option (List (Failure UInt64))
  | array items => allFailures? items
  | _ => none

def allFailures? : List Value → Option (List (Failure UInt64))
  | [] => some []
  | v :: vs => do some ((← toFailure? v) :: (← allFailures? vs))

end

end Stacktrace.Value
