import Stacktrace.Failure.Navigate

/-!
Transforms of failure graphs. A failure that an unwrap rule matches gives its place to its cause,
or vanishes when it has none; the others get new frames and then a new message. Causes come first,
so a rule sees the cause that is left, and links to a failure that gave its place away lead to the
failure that took it.
-/

namespace Stacktrace
variable {ι : Type}

structure Transform (ι : Type) where
  message : Option (Failure ι → Option Text) := none
  unwraps : List (Failure ι → Bool) := []
  frameLists : List (List Frame → List Frame) := []
  frames : List (Frame → Option Frame) := []

namespace Failure
variable [DecidableEq ι]

mutual

/-- The graph with every link to `old` replaced. -/
def retarget (old : ι) (link : BackRef ι) : Failure ι → Failure ι
  | ⟨id, typeName, message, frames, origin, suppressed, cause⟩ =>
    ⟨id, typeName, message, frames, origin, retargetIn old link suppressed,
      retargetCause old link cause⟩

def retargetCause (old : ι) (link : BackRef ι) : Cause ι (Failure ι) → Cause ι (Failure ι)
  | .none => .none
  | .owned c => .owned (retarget old link c)
  | .backRef found => .backRef (if found.target = old then link else found)

def retargetIn (old : ι) (link : BackRef ι) : List (Failure ι) → List (Failure ι)
  | [] => []
  | f :: fs => retarget old link f :: retargetIn old link fs

end

theorem retargetIn_eq_map (old : ι) (link : BackRef ι) (fs : List (Failure ι)) :
    retargetIn old link fs = fs.map (retarget old link) := by
  induction fs with
  | nil => rfl
  | cons f fs ih => simp [retargetIn, ih]

/-- The owned cause, with the links to the failure above it leading to the cause itself. -/
def replacement? (f : Failure ι) : Option (Failure ι) :=
  f.source?.map fun c => c.retarget f.id c.link

end Failure

namespace Transform

/-- Whether a failure is to give its place away. One whose cause is a link back never is. -/
def unwrapsNode (t : Transform ι) (f : Failure ι) : Bool :=
  f.cause.backRef?.isNone && t.unwraps.any (· f)

/-- A frame after the rules for single frames; a rule sees no frame that an earlier one dropped. -/
def editFrame? (t : Transform ι) (frame : Frame) : Option Frame :=
  t.frames.foldlM (fun frame rule => rule frame) frame

/-- Frames after the rules for whole lists and then those for single frames, if there are any. -/
def editFrames (t : Transform ι) (frames : List Frame) : List Frame :=
  let frames := t.frameLists.foldl (fun frames rule => rule frames) frames
  if t.frames.isEmpty then frames else frames.filterMap t.editFrame?

theorem editFrames_eq_filterMap (t : Transform ι) (frames : List Frame) : t.editFrames frames =
    (t.frameLists.foldl (fun frames rule => rule frames) frames).filterMap t.editFrame? := by
  rw [editFrames]
  split
  · next hnone =>
    have hkeeps : t.editFrame? = some := by
      funext frame
      rw [editFrame?, List.isEmpty_iff.1 hnone]
      rfl
    rw [hkeeps, List.filterMap_some]
  · rfl

/-- A failure with its own frames and then its message changed. -/
def editNode (t : Transform ι) (f : Failure ι) : Failure ι :=
  let f := { f with frames := t.editFrames f.frames }
  match t.message with
  | none => f
  | some rule => { f with message := rule f }

def describe (t : Transform ι) : String :=
  let message := t.message.isSome
  let unwraps := t.unwraps.length
  let frameLists := t.frameLists.length
  let frames := t.frames.length
  s!"Transform \x7b message_rule: {message}, unwrap_rules: {unwraps}, "
    ++ s!"frame_list_rules: {frameLists}, frame_rules: {frames} \x7d"

variable [DecidableEq ι]

mutual

/-- The transformed graph; none is left if every failure on the chain of causes is unwrapped. -/
def apply (t : Transform ι) : Failure ι → Option (Failure ι)
  | ⟨id, typeName, message, frames, origin, suppressed, cause⟩ =>
    let f : Failure ι :=
      ⟨id, typeName, message, frames, origin, suppressed, applyCause t cause⟩
    if t.unwrapsNode f then f.replacement?
    else some (t.editNode { f with suppressed := applyIn t suppressed })

def applyCause (t : Transform ι) : Cause ι (Failure ι) → Cause ι (Failure ι)
  | .none => .none
  | .owned c => (apply t c).elim .none .owned
  | .backRef link => .backRef link

def applyIn (t : Transform ι) : List (Failure ι) → List (Failure ι)
  | [] => []
  | f :: fs => (apply t f).toList ++ applyIn t fs

end

theorem applyIn_eq_filterMap (t : Transform ι) (fs : List (Failure ι)) :
    t.applyIn fs = fs.filterMap t.apply := by
  induction fs with
  | nil => rfl
  | cons f fs ih => cases h : t.apply f <;> simp [applyIn, h, ih]

/-- The transformed graph, whose root gives its place away to a cause only. -/
def applyKeepingRoot (t : Transform ι) (root : Failure ι) : Failure ι :=
  let f := { root with cause := t.applyCause root.cause }
  let kept := t.editNode { f with suppressed := t.applyIn f.suppressed }
  if t.unwrapsNode f then f.replacement?.getD kept else kept

end Transform
end Stacktrace
