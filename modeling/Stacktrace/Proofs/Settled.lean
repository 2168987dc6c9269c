import Stacktrace.Proofs.Survivors

/-!
# Transforms that are done at once

A failure is settled if a transform neither unwraps it nor changes its frames. When unwrap rules
look at headers only, messages stay and frames are edited for good, all failures that a transform
leaves are settled (`ReadsHeaders.settled_of_apply`), and a graph of settled failures is left as it
is (`apply_of_settled`). So it is enough to apply such a transform once (`fixed_of_transformed`). A
root that is kept although a rule matches it is not settled, but it has no cause to give its place
to.
-/

namespace Stacktrace.Transform
open Failure
variable {ι : Type} {t : Transform ι}

/-- Whether unwrap rules look at nothing but type name, message and origin. -/
def ReadsHeaders (t : Transform ι) : Prop :=
  ∀ rule ∈ t.unwraps, ∀ f g : Failure ι, f.typeName = g.typeName → f.message = g.message →
    f.origin = g.origin → rule f = rule g

/-- Whether editing frames a second time changes nothing. -/
def EditsOnce (t : Transform ι) : Prop :=
  ∀ frames, t.editFrames (t.editFrames frames) = t.editFrames frames

/-- Whether a transform leaves a failure as it is, apart from all that hangs off it. -/
structure Settled (t : Transform ι) (f : Failure ι) : Prop where
  stays : t.unwrapsNode f = false
  frames_eq : t.editFrames f.frames = f.frames

theorem unwrapsNode_eq_false_iff {f : Failure ι} : t.unwrapsNode f = false ↔
    (∃ link, f.cause = .backRef link) ∨ ∀ rule ∈ t.unwraps, rule f = false := by
  cases hcause : f.cause <;> simp [unwrapsNode, hcause, Cause.backRef?]

theorem ReadsHeaders.unwrapsNode_eq (h : t.ReadsHeaders) {f g : Failure ι}
    (htype : f.typeName = g.typeName) (hmessage : f.message = g.message)
    (horigin : f.origin = g.origin) (hlink : f.cause.backRef?.isNone = g.cause.backRef?.isNone) :
    t.unwrapsNode f = t.unwrapsNode g :=
  unwrapsNode_congr hlink fun rule hrule => h rule hrule f g htype hmessage horigin

variable [DecidableEq ι]

/-! ## What is left is settled -/

theorem ReadsHeaders.unwrapsNode_retarget (h : t.ReadsHeaders) (old : ι) (link : BackRef ι)
    (f : Failure ι) : t.unwrapsNode (f.retarget old link) = t.unwrapsNode f := by
  refine h.unwrapsNode_eq ?_ ?_ ?_ ?_
  · rw [retarget_typeName]
  · rw [retarget_message]
  · rw [retarget_origin]
  · rw [retarget_cause, backRef?_retargetCause, Option.isNone_map]

theorem ReadsHeaders.unwrapsNode_keep (h : t.ReadsHeaders) (hmessage : t.message = none)
    (f : Failure ι) :
    t.unwrapsNode (t.keep f) = t.unwrapsNode { f with cause := t.applyCause f.cause } := by
  have hremains := remains_keep t f
  refine h.unwrapsNode_eq hremains.typeName_eq (hremains.message_eq hmessage) hremains.origin_eq ?_
  rw [keep_cause]

theorem ReadsHeaders.stays_of_apply (h : t.ReadsHeaders) (hmessage : t.message = none)
    {f r n : Failure ι} (hr : t.apply f = some r) (hn : n ∈ r.nodes) :
    t.unwrapsNode n = false := by
  induction f using induct_children generalizing r n with
  | node f ih =>
    rw [apply_eq] at hr
    split at hr
    · rw [replacement?, Option.map_eq_some_iff] at hr
      obtain ⟨d, hd, rfl⟩ := hr
      obtain ⟨c, hc, happly⟩ := applyCause_eq_owned_iff.1 (source?_eq_some_iff.1 hd)
      rw [nodes_retarget] at hn
      obtain ⟨m, hm, rfl⟩ := List.mem_map.1 hn
      rw [h.unwrapsNode_retarget]
      exact ih c (mem_children.2 (.inr hc)) happly hm
    · next hstays =>
      obtain rfl := Option.some.inj hr
      rcases mem_nodes.1 hn with rfl | ⟨d, hd, hn⟩
      · rw [h.unwrapsNode_keep hmessage]
        exact Bool.eq_false_iff.2 hstays
      · rw [children_keep] at hd
        obtain ⟨c, hc, happly⟩ := List.mem_filterMap.1 hd
        exact ih c hc happly hn

theorem ReadsHeaders.settled_of_apply (h : t.ReadsHeaders) (hmessage : t.message = none)
    (hframes : t.EditsOnce) {f r n : Failure ι} (hr : t.apply f = some r) (hn : n ∈ r.nodes) :
    t.Settled n := by
  obtain ⟨m, -, hremains⟩ := (leaves_of_apply hr).exists_node hn
  refine ⟨h.stays_of_apply hmessage hr hn, ?_⟩
  rw [hremains.frames_eq, hframes]

/-! ## What is settled is left as it is -/

theorem keep_eq_self {f : Failure ι} (hmessage : t.message = none)
    (hframes : t.editFrames f.frames = f.frames) (hchildren : ∀ c ∈ f.children, t.apply c = some c) :
    t.keep f = f := by
  have hsuppressed : f.suppressed.filterMap t.apply = f.suppressed := by
    rw [List.filterMap_congr fun s hs => hchildren s (mem_children.2 (.inl hs)),
      List.filterMap_some]
  have hcause : t.applyCause f.cause = f.cause := by
    cases hc : f.cause with
    | none => rfl
    | owned c => rw [applyCause, hchildren c (mem_children.2 (.inr hc))]; rfl
    | backRef link => rfl
  rw [keep, hsuppressed, hcause, editNode, hmessage]
  simp only [hframes]
  cases f
  rfl

theorem apply_of_settled {f : Failure ι} (hmessage : t.message = none)
    (hf : ∀ n ∈ f.nodes, t.Settled n) : t.apply f = some f := by
  induction f using induct_children with
  | node f ih =>
    obtain ⟨hstays, hframes⟩ := hf f (self_mem_nodes f)
    have hchildren : ∀ c ∈ f.children, t.apply c = some c := fun c hc =>
      ih c hc fun n hn => hf n (nodes_subset_of_mem_children hc hn)
    have hkeep := keep_eq_self hmessage hframes hchildren
    have hself : { f with cause := t.applyCause f.cause } = f := by
      rw [← keep_cause, hkeep]
      cases f
      rfl
    rw [apply_eq, hself, hkeep, hstays]
    rfl

/-! ## Roots that are kept -/

theorem applyKeepingRoot_of_apply {f r : Failure ι} (h : t.apply f = some r) :
    t.applyKeepingRoot f = r := by
  rw [apply_eq] at h
  rw [applyKeepingRoot_eq]
  split at h
  · next hunwraps => rw [if_pos hunwraps, h, Option.getD_some]
  · next hstays => rw [if_neg hstays, Option.some.inj h]

theorem applyKeepingRoot_of_cause_eq_none {f : Failure ι} (h : t.applyCause f.cause = .none) :
    t.applyKeepingRoot f = t.keep f := by
  rw [applyKeepingRoot_eq, h, replacement?, source?]
  exact ite_self _

/-- Nothing is left of a failure that a rule matches when nothing is left for its cause. -/
theorem apply_eq_none_iff {f : Failure ι} : t.apply f = none ↔
    t.applyCause f.cause = .none ∧ t.unwrapsNode { f with cause := .none } = true := by
  rw [apply_eq]
  constructor
  · intro h
    split at h
    · next hunwraps =>
      cases hcause : t.applyCause f.cause with
      | none =>
        rw [hcause] at hunwraps
        exact ⟨rfl, hunwraps⟩
      | owned c => simp [replacement?, source?, hcause, Cause.owned?] at h
      | backRef link => simp [unwrapsNode, hcause, Cause.backRef?] at hunwraps
    · cases h
  · rintro ⟨hcause, hunwraps⟩
    rw [hcause, if_pos hunwraps]
    rfl

section Once
variable (hmessage : t.message = none) (hheaders : t.ReadsHeaders) (hframes : t.EditsOnce)
include hmessage hheaders hframes

theorem apply_of_apply {f r : Failure ι} (h : t.apply f = some r) : t.apply r = some r :=
  apply_of_settled hmessage fun _ hn => hheaders.settled_of_apply hmessage hframes h hn

theorem keep_keep (f : Failure ι) : t.keep (t.keep f) = t.keep f := by
  refine keep_eq_self hmessage ?_ ?_
  · rw [(remains_keep t f).frames_eq, hframes]
  · intro d hd
    rw [children_keep] at hd
    obtain ⟨c, -, hc⟩ := List.mem_filterMap.1 hd
    exact apply_of_apply hmessage hheaders hframes hc

theorem applyKeepingRoot_applyKeepingRoot (f : Failure ι) :
    t.applyKeepingRoot (t.applyKeepingRoot f) = t.applyKeepingRoot f := by
  cases happly : t.apply f with
  | some r =>
    have hagain := apply_of_apply hmessage hheaders hframes happly
    rw [applyKeepingRoot_of_apply happly, applyKeepingRoot_of_apply hagain]
  | none =>
    have hcause := (apply_eq_none_iff.1 happly).1
    have hagain : t.applyCause (t.keep f).cause = .none := by
      rw [keep_cause, hcause]
      rfl
    rw [applyKeepingRoot_of_cause_eq_none hcause, applyKeepingRoot_of_cause_eq_none hagain,
      keep_keep hmessage hheaders hframes]

end Once

/-- After one application no failure is unwrapped or edited any more, be it that the root may
vanish or that it has to stay. -/
theorem fixed_of_transformed (hmessage : t.message = none) (hheaders : t.ReadsHeaders)
    (hframes : t.EditsOnce) (g : Failure ι) :
    (∀ r, t.apply g = some r →
      (∀ n ∈ r.nodes, (∃ link, n.cause = .backRef link) ∨ ∀ rule ∈ t.unwraps, rule n = false) ∧
        t.apply r = some r) ∧
      t.applyKeepingRoot (t.applyKeepingRoot g) = t.applyKeepingRoot g := by
  refine ⟨fun r happly => ⟨fun n hn => ?_, ?_⟩, ?_⟩
  · exact unwrapsNode_eq_false_iff.1 (hheaders.stays_of_apply hmessage happly hn)
  · exact apply_of_apply hmessage hheaders hframes happly
  · exact applyKeepingRoot_applyKeepingRoot hmessage hheaders hframes g

/-! A wrapper in a chain of causes, one that vanishes and one with a link to the first for a cause.
Of the frames that stay, one is dropped. -/

def layered : Failure Nat :=
  let frames := [.native, .unavailable, .unavailable].map (Frame.mk ['u'] ['o'] none)
  let looped := { ofType 4 ['W'] with cause := .backRef ⟨1, ['W']⟩ }
  let inner := { ofType 2 ['B'] with frames, suppressed := [ofType 3 ['W'], looped] }
  { ofType 0 ['T'] with cause := .owned { ofType 1 ['W'] with cause := .owned inner } }

def layeredTrimmed : Failure Nat :=
  let looped := { ofType 4 ['W'] with cause := .backRef ⟨2, ['B']⟩ }
  let inner := { ofType 2 ['B'] with
    frames := [⟨['u'], ['o'], none, .unavailable⟩], suppressed := [looped] }
  { ofType 0 ['T'] with cause := .owned inner }

def trimming : Transform Nat :=
  { unwrapping with
    frameLists := [(·.take 2)]
    frames := [fun frame => if frame.isNative then none else some frame] }

theorem editFrames_trimming (frames : List Frame) :
    trimming.editFrames frames = (frames.take 2).filter (!·.isNative) := by
  rw [editFrames_eq_filterMap, ← List.filterMap_eq_filter]
  refine List.filterMap_congr fun frame _ => ?_
  cases h : frame.isNative <;> simp [editFrame?, trimming, Option.guard, h]

theorem editsOnce_trimming : trimming.EditsOnce := by
  intro frames
  have hlength : ((frames.take 2).filter (!·.isNative)).length ≤ 2 :=
    (List.length_filter_le _ _).trans (List.length_take_le 2 frames)
  simp only [editFrames_trimming]
  rw [List.take_of_length_le hlength, List.filter_filter]
  simp only [Bool.and_self]

theorem fixed_layered : trimming.message = none ∧ trimming.ReadsHeaders ∧ trimming.EditsOnce ∧
    trimming.apply layered = some layeredTrimmed ∧
      (∀ n ∈ layeredTrimmed.nodes,
        (∃ link, n.cause = .backRef link) ∨ ∀ rule ∈ trimming.unwraps, rule n = false) ∧
      trimming.apply layeredTrimmed = some layeredTrimmed ∧
        trimming.applyKeepingRoot (trimming.applyKeepingRoot layered) =
          trimming.applyKeepingRoot layered := by
  have hheaders : trimming.ReadsHeaders := by
    intro rule hrule f g htype _ _
    obtain rfl := List.mem_singleton.1 hrule
    simp only [htype]
  have happly : trimming.apply layered = some layeredTrimmed := rfl
  have hfixed := fixed_of_transformed rfl hheaders editsOnce_trimming layered
  obtain ⟨hsettled, hagain⟩ := hfixed.1 layeredTrimmed happly
  exact ⟨rfl, hheaders, editsOnce_trimming, happly, hsettled, hagain, hfixed.2⟩

end Stacktrace.Transform
