import Stacktrace.Proofs.Settled
import Stacktrace.Transform.Rule

/-!
# Rules for frames

A transform that has rules for frames and no others gives every failure of a graph other frames, at
whatever depth it stands, and leaves all else as it is (`apply_framesOnly`). Such rules take effect
in their order. It makes no difference whether one transform has all of them, or one has the first
of them and the next one has the rest, and a rule for single frames is asked about no frame that an
earlier one has dropped (`framesOnly_in_order`).
-/

namespace Stacktrace
variable {ι : Type}

namespace Cause
variable {α β γ : Type}

def map (φ : α → β) : Cause ι α → Cause ι β
  | .none => .none
  | .owned node => .owned (φ node)
  | .backRef link => .backRef link

theorem map_map (φ : α → β) (ψ : β → γ) (cause : Cause ι α) :
    (cause.map φ).map ψ = cause.map (ψ ∘ φ) := by
  cases cause <;> rfl

theorem map_congr {φ ψ : α → β} {cause : Cause ι α} (h : ∀ a, cause = .owned a → φ a = ψ a) :
    cause.map φ = cause.map ψ := by
  cases cause with
  | owned a => exact congrArg Cause.owned (h a rfl)
  | _ => rfl

end Cause

namespace Failure

mutual

/-- The graph with other frames for every failure. -/
def mapFrames (φ : List Frame → List Frame) : Failure ι → Failure ι
  | ⟨id, typeName, message, frames, origin, suppressed, cause⟩ =>
    ⟨id, typeName, message, φ frames, origin, mapFramesIn φ suppressed, mapFramesCause φ cause⟩

def mapFramesCause (φ : List Frame → List Frame) : Cause ι (Failure ι) → Cause ι (Failure ι)
  | .none => .none
  | .owned c => .owned (mapFrames φ c)
  | .backRef link => .backRef link

def mapFramesIn (φ : List Frame → List Frame) : List (Failure ι) → List (Failure ι)
  | [] => []
  | f :: fs => mapFrames φ f :: mapFramesIn φ fs

end

theorem mapFramesIn_eq_map (φ : List Frame → List Frame) (fs : List (Failure ι)) :
    mapFramesIn φ fs = fs.map (mapFrames φ) := by
  induction fs with
  | nil => rfl
  | cons f fs ih => rw [mapFramesIn, ih, List.map_cons]

theorem mapFramesCause_eq_map (φ : List Frame → List Frame) (cause : Cause ι (Failure ι)) :
    mapFramesCause φ cause = cause.map (mapFrames φ) := by
  cases cause <;> rfl

theorem mapFrames_eq (φ : List Frame → List Frame) (f : Failure ι) : f.mapFrames φ =
    { f with
      frames := φ f.frames
      suppressed := f.suppressed.map (mapFrames φ)
      cause := f.cause.map (mapFrames φ) } := by
  cases f
  rw [mapFrames, mapFramesIn_eq_map, mapFramesCause_eq_map]

theorem mapFrames_mapFrames (φ ψ : List Frame → List Frame) (f : Failure ι) :
    (f.mapFrames φ).mapFrames ψ = f.mapFrames (ψ ∘ φ) := by
  induction f with
  | node f ihSuppressed ihCause =>
    have hsuppressed : (f.suppressed.map (mapFrames φ)).map (mapFrames ψ) =
        f.suppressed.map (mapFrames (ψ ∘ φ)) := by
      rw [List.map_map]
      exact List.map_congr_left ihSuppressed
    have hcause : (f.cause.map (mapFrames φ)).map (mapFrames ψ) =
        f.cause.map (mapFrames (ψ ∘ φ)) := by
      rw [Cause.map_map]
      exact Cause.map_congr ihCause
    rw [mapFrames_eq, mapFrames_eq φ, mapFrames_eq (ψ ∘ φ)]
    simp only [hsuppressed, hcause, Function.comp_apply]

theorem mapFrames_congr {φ ψ : List Frame → List Frame} {f : Failure ι}
    (h : ∀ n ∈ f.nodes, φ n.frames = ψ n.frames) : f.mapFrames φ = f.mapFrames ψ := by
  induction f with
  | node f ihSuppressed ihCause =>
    have hbelow (c : Failure ι) (hc : c ∈ f.children) : ∀ n ∈ c.nodes, φ n.frames = ψ n.frames :=
      fun n hn => h n (nodes_subset_of_mem_children hc hn)
    have hsuppressed : f.suppressed.map (mapFrames φ) = f.suppressed.map (mapFrames ψ) :=
      List.map_congr_left fun s hs => ihSuppressed s hs (hbelow s (mem_children.2 (.inl hs)))
    have hcause : f.cause.map (mapFrames φ) = f.cause.map (mapFrames ψ) :=
      Cause.map_congr fun c hc => ihCause c hc (hbelow c (mem_children.2 (.inr hc)))
    rw [mapFrames_eq, mapFrames_eq ψ, h f (self_mem_nodes f), hsuppressed, hcause]

end Failure

namespace Transform
open Failure

/-- A transform with rules for frame lists and for single frames only. -/
def framesOnly (lists : List (List Frame → List Frame)) (singles : List (Frame → Option Frame)) :
    Transform ι := { frameLists := lists, frames := singles }

section Edits
variable (A B : List (List Frame → List Frame)) (R S : List (Frame → Option Frame))

theorem editFrame?_append (frame : Frame) :
    (framesOnly A (R ++ S) : Transform ι).editFrame? frame =
      ((framesOnly A R : Transform ι).editFrame? frame).bind
        (framesOnly [] S : Transform ι).editFrame? := by
  rw [editFrame?, framesOnly, List.foldlM_append]
  rfl

theorem editFrames_append_lists :
    (framesOnly B R : Transform ι).editFrames ∘ (framesOnly A [] : Transform ι).editFrames =
      (framesOnly (A ++ B) R : Transform ι).editFrames := by
  funext frames
  have hfirst : (framesOnly A [] : Transform ι).editFrames frames =
      A.foldl (fun frames rule => rule frames) frames := rfl
  rw [Function.comp_apply, hfirst, editFrames, editFrames, framesOnly, framesOnly,
    List.foldl_append]
  rfl

theorem editFrames_append_singles :
    (framesOnly [] S : Transform ι).editFrames ∘ (framesOnly A R : Transform ι).editFrames =
      (framesOnly A (R ++ S) : Transform ι).editFrames := by
  funext frames
  rw [Function.comp_apply, editFrames_eq_filterMap, editFrames_eq_filterMap,
    editFrames_eq_filterMap, List.filterMap_congr fun frame _ => editFrame?_append A R S frame,
    ← List.filterMap_filterMap]
  rfl

/-- A later rule is asked about the frames that earlier ones leave, and about no others. -/
theorem editFrames_append_congr {S' : List (Frame → Option Frame)} {frames : List Frame}
    (h : ∀ frame ∈ (framesOnly A R : Transform ι).editFrames frames,
      (framesOnly [] S : Transform ι).editFrame? frame =
        (framesOnly [] S' : Transform ι).editFrame? frame) :
    (framesOnly A (R ++ S) : Transform ι).editFrames frames =
      (framesOnly A (R ++ S') : Transform ι).editFrames frames := by
  rw [← editFrames_append_singles, ← editFrames_append_singles, Function.comp_apply,
    Function.comp_apply, editFrames_eq_filterMap (framesOnly [] S),
    editFrames_eq_filterMap (framesOnly [] S')]
  exact List.filterMap_congr h

end Edits

variable [DecidableEq ι]

theorem apply_framesOnly (lists : List (List Frame → List Frame))
    (singles : List (Frame → Option Frame)) (f : Failure ι) :
    (framesOnly lists singles).apply f =
      some (f.mapFrames (framesOnly lists singles : Transform ι).editFrames) := by
  induction f with
  | node f ihSuppressed ihCause =>
    have hsuppressed := List.filterMap_congr ihSuppressed
    rw [List.filterMap_eq_map'] at hsuppressed
    have hcause : (framesOnly lists singles).applyCause f.cause =
        f.cause.map (mapFrames (framesOnly lists singles : Transform ι).editFrames) := by
      cases hc : f.cause with
      | owned c =>
        rw [applyCause, ihCause c hc]
        rfl
      | _ => rfl
    have hstays : ¬ (framesOnly lists singles).unwrapsNode
        { f with cause := (framesOnly lists singles).applyCause f.cause } = true := by
      simp [unwrapsNode, framesOnly]
    rw [apply_eq, if_neg hstays, keep, hsuppressed, hcause, mapFrames_eq]
    rfl

theorem applyKeepingRoot_framesOnly (lists : List (List Frame → List Frame))
    (singles : List (Frame → Option Frame)) (f : Failure ι) :
    (framesOnly lists singles).applyKeepingRoot f =
      f.mapFrames (framesOnly lists singles : Transform ι).editFrames :=
  applyKeepingRoot_of_apply (apply_framesOnly lists singles f)

/-- Whether a transform does to every graph what two others do to it one after the other. -/
structure IsSequence (first second both : Transform ι) : Prop where
  apply_eq : ∀ g, (first.apply g).bind second.apply = both.apply g
  applyKeepingRoot_eq :
    ∀ g, second.applyKeepingRoot (first.applyKeepingRoot g) = both.applyKeepingRoot g

theorem isSequence_framesOnly {A B C : List (List Frame → List Frame)}
    {R S T : List (Frame → Option Frame)}
    (h : (framesOnly B S : Transform ι).editFrames ∘ (framesOnly A R : Transform ι).editFrames =
      (framesOnly C T : Transform ι).editFrames) :
    IsSequence (framesOnly A R : Transform ι) (framesOnly B S) (framesOnly C T) where
  apply_eq g := by
    rw [apply_framesOnly, Option.bind_some, apply_framesOnly, mapFrames_mapFrames, h,
      apply_framesOnly]
  applyKeepingRoot_eq g := by
    rw [applyKeepingRoot_framesOnly, applyKeepingRoot_framesOnly, mapFrames_mapFrames, h,
      applyKeepingRoot_framesOnly]

/-- Rules for frames take effect in their order, whether one transform has them or two, and what
later rules make of a frame that earlier ones drop is of no account. -/
theorem framesOnly_in_order (A B : List (List Frame → List Frame))
    (R S : List (Frame → Option Frame)) :
    IsSequence (framesOnly A [] : Transform ι) (framesOnly B R) (framesOnly (A ++ B) R) ∧
      IsSequence (framesOnly A R : Transform ι) (framesOnly [] S) (framesOnly A (R ++ S)) ∧
      (∀ g : Failure ι, (framesOnly A R).apply g = some (g.mapFrames fun frames =>
        (A.foldl (fun frames rule => rule frames) frames).filterMap
          (R.foldlM fun frame rule => rule frame))) ∧
      ∀ (g : Failure ι) (S' : List (Frame → Option Frame)),
        (∀ n ∈ g.nodes, ∀ frame ∈ (framesOnly A R : Transform ι).editFrames n.frames,
          S.foldlM (fun frame rule => rule frame) frame =
            S'.foldlM (fun frame rule => rule frame) frame) →
        (framesOnly A (R ++ S)).apply g = (framesOnly A (R ++ S')).apply g := by
  refine ⟨isSequence_framesOnly (editFrames_append_lists A B R),
    isSequence_framesOnly (editFrames_append_singles A R S), fun g => ?_, fun g S' h => ?_⟩
  · rw [apply_framesOnly, funext (editFrames_eq_filterMap _)]
    rfl
  · rw [apply_framesOnly, apply_framesOnly,
      mapFrames_congr fun n hn => editFrames_append_congr A R S (h n hn)]

/-! The last two frames in reverse, less native ones, under another operation. -/

def reversing : List (List Frame → List Frame) := [List.reverse, List.take 2]

def sparing : List (Frame → Option Frame) := [(FrameRule.map? · .dropNative)]

def naming : List (Frame → Option Frame) := [(FrameRule.map? · (.setOperation ['p']))]

/-- As `naming`, but not for native frames. -/
def balking : List (Frame → Option Frame) :=
  [fun frame => if frame.isNative then some frame else FrameRule.map? frame (.setOperation ['p'])]

/-- A failure with one suppressed beside it and a cause, all with the same frames. -/
def uniform (frames : List Frame) : Failure Nat :=
  let beside := { ofType 1 ['S'] with frames, cause := .backRef ⟨0, ['T']⟩ }
  { ofType 0 ['T'] with
    frames, suppressed := [beside], cause := .owned { ofType 2 ['C'] with frames } }

def uniformFrames : List Frame := [.unavailable, .native, .number 3].map (Frame.mk ['u'] ['o'] none)

theorem framesOnly_in_order_uniform :
    ((framesOnly reversing sparing).apply (uniform uniformFrames)).bind
        (framesOnly [] naming).apply = some (uniform [⟨['u'], ['p'], none, .number 3⟩]) ∧
      (∀ n ∈ (uniform uniformFrames).nodes,
        ∀ frame ∈ (framesOnly reversing sparing : Transform Nat).editFrames n.frames,
          naming.foldlM (fun frame rule => rule frame) frame =
            balking.foldlM (fun frame rule => rule frame) frame) ∧
      (framesOnly reversing (sparing ++ balking)).apply (uniform uniformFrames) =
        some (uniform [⟨['u'], ['p'], none, .number 3⟩]) := by
  have hsame : ∀ n ∈ (uniform uniformFrames).nodes,
      ∀ frame ∈ (framesOnly reversing sparing : Transform Nat).editFrames n.frames,
        naming.foldlM (fun frame rule => rule frame) frame =
          balking.foldlM (fun frame rule => rule frame) frame := by decide
  obtain ⟨-, hsequence, -, hblind⟩ :=
    framesOnly_in_order (ι := Nat) reversing [] sparing naming
  have hboth : (framesOnly reversing (sparing ++ naming)).apply (uniform uniformFrames) =
      some (uniform [⟨['u'], ['p'], none, .number 3⟩]) := rfl
  exact ⟨(hsequence.apply_eq _).trans hboth, hsame, (hblind _ _ hsame).symm.trans hboth⟩

end Transform
end Stacktrace
