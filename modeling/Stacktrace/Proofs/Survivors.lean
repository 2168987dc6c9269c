import Stacktrace.Proofs.TransformLinks

/-!
# Failures that a transform leaves

A transform leaves failures at the depths where they were, and changes nothing of them but frames,
message and links (`Leaves.exists_visit`). When no unwrap rule looks at causes, the graph alone says
which failures are left: those that are neither unwrapped nor suppressed, at any remove, beside a
failure that is. They stand in the order in which they stood (`walk_of_apply`).
-/

namespace Stacktrace
variable {ι : Type}

namespace Failure

section Retarget
variable [DecidableEq ι] (old : ι) (link : BackRef ι) (f : Failure ι)

@[simp]
theorem retarget_typeName : (f.retarget old link).typeName = f.typeName := by
  rw [retarget_eq]

@[simp]
theorem retarget_message : (f.retarget old link).message = f.message := by
  rw [retarget_eq]

@[simp]
theorem retarget_frames : (f.retarget old link).frames = f.frames := by
  rw [retarget_eq]

@[simp]
theorem retarget_origin : (f.retarget old link).origin = f.origin := by
  rw [retarget_eq]

theorem source?_retarget :
    (f.retarget old link).source? = f.source?.map (retarget old link) := by
  rw [source?, source?, retarget_cause]
  cases f.cause <;> rfl

theorem visits_retarget (depth : Nat) (relation : Relation) :
    (f.retarget old link).visits depth relation =
      (f.visits depth relation).map fun v => { v with node := v.node.retarget old link } :=
  visits_map (retarget_suppressed old link) (source?_retarget old link) depth relation f

end Retarget
end Failure

namespace Transform
open Failure

section EditNode
variable (t : Transform ι) (f : Failure ι)

@[simp]
theorem editNode_typeName : (t.editNode f).typeName = f.typeName := by
  rw [editNode]
  split <;> rfl

@[simp]
theorem editNode_origin : (t.editNode f).origin = f.origin := by
  rw [editNode]
  split <;> rfl

@[simp]
theorem editNode_frames : (t.editNode f).frames = t.editFrames f.frames := by
  rw [editNode]
  split <;> rfl

theorem editNode_message_of_eq_none (h : t.message = none) :
    (t.editNode f).message = f.message := by
  rw [editNode, h]

end EditNode

/-- What a transform leaves of a failure that it keeps, whatever becomes of all that hangs off it:
the frames are edited, and only a message rule changes the message. -/
structure Remains (t : Transform ι) (before after : Failure ι) : Prop where
  id_eq : after.id = before.id
  typeName_eq : after.typeName = before.typeName
  origin_eq : after.origin = before.origin
  frames_eq : after.frames = t.editFrames before.frames
  message_eq : t.message = none → after.message = before.message

variable [DecidableEq ι]

theorem remains_keep (t : Transform ι) (f : Failure ι) : t.Remains f (t.keep f) where
  id_eq := keep_id t f
  typeName_eq := by rw [keep, editNode_typeName]
  origin_eq := by rw [keep, editNode_origin]
  frames_eq := by rw [keep, editNode_frames]
  message_eq h := by rw [keep, editNode_message_of_eq_none _ _ h]

theorem Remains.retarget {t : Transform ι} {before after : Failure ι}
    (h : t.Remains before after) (old : ι) (link : BackRef ι) :
    t.Remains before (after.retarget old link) where
  id_eq := (retarget_id old link after).trans h.id_eq
  typeName_eq := (retarget_typeName old link after).trans h.typeName_eq
  origin_eq := (retarget_origin old link after).trans h.origin_eq
  frames_eq := (retarget_frames old link after).trans h.frames_eq
  message_eq hmessage := (retarget_message old link after).trans (h.message_eq hmessage)

theorem leaves_of_transformed {t : Transform ι} {g r : Failure ι}
    (hr : t.apply g = some r ∨ t.applyKeepingRoot g = r) : t.Leaves g r := by
  rcases hr with happly | rfl
  · exact leaves_of_apply happly
  · exact leaves_applyKeepingRoot t g

/-- Every failure that is left was there before, at the same depth. -/
theorem Leaves.exists_visit {t : Transform ι} {f r : Failure ι} (h : t.Leaves f r) {depth : Nat}
    {relation : Relation} {v : Visit ι} (hv : v ∈ r.visits depth relation) (before : Relation) :
    ∃ w ∈ f.visits depth before, w.depth = v.depth ∧ t.Remains w.node v.node := by
  induction f generalizing r depth relation v before with
  | node f ihSuppressed ihCause =>
    cases h with
    | kept =>
      rcases mem_visits.1 hv with rfl | ⟨d, hd, hv⟩ | ⟨d, hd, hv⟩
      · exact ⟨⟨depth, before, f⟩, mem_visits.2 (.inl rfl), rfl, remains_keep t f⟩
      · rw [keep_suppressed] at hd
        obtain ⟨s, hs, happly⟩ := List.mem_filterMap.1 hd
        obtain ⟨w, hw, hremains⟩ := ihSuppressed s hs (leaves_of_apply happly) hv .suppressed
        exact ⟨w, mem_visits.2 (.inr (.inl ⟨s, hs, hw⟩)), hremains⟩
      · rw [keep_cause] at hd
        obtain ⟨c, hc, happly⟩ := applyCause_eq_owned_iff.1 hd
        obtain ⟨w, hw, hremains⟩ := ihCause c hc (leaves_of_apply happly) hv .cause
        exact ⟨w, mem_visits.2 (.inr (.inr ⟨c, hc, hw⟩)), hremains⟩
    | @replaced c d hcause happly =>
      rw [visits_retarget] at hv
      obtain ⟨u, hu, rfl⟩ := List.mem_map.1 hv
      obtain ⟨w, hw, hdepth, hremains⟩ := ihCause c hcause (leaves_of_apply happly) hu .cause
      exact ⟨w, mem_visits.2 (.inr (.inr ⟨c, hcause, hw⟩)), hdepth, hremains.retarget f.id d.link⟩

theorem Leaves.exists_node {t : Transform ι} {f r n : Failure ι} (h : t.Leaves f r)
    (hn : n ∈ r.nodes) : ∃ m ∈ f.nodes, t.Remains m n := by
  obtain ⟨v, hv, rfl⟩ := List.mem_map.1 hn
  obtain ⟨w, hw, -, hremains⟩ := h.exists_visit hv .root
  exact ⟨w.node, List.mem_map_of_mem hw, hremains⟩

theorem Leaves.exists_lineage {t : Transform ι} {f r : Failure ι} (h : t.Leaves f r)
    {p : Lineage ι} (hp : p ∈ r.lineages) :
    ∃ q ∈ f.lineages, q.depth = p.depth ∧ t.Remains q.node p.node := by
  have hv := mem_walk_iff_exists_lineage.2 ⟨p, hp, rfl⟩
  obtain ⟨w, hw, hdepth, hremains⟩ := h.exists_visit hv .root
  obtain ⟨q, hq, rfl⟩ := mem_walk_iff_exists_lineage.1 hw
  exact ⟨q, hq, hdepth, hremains⟩

end Transform

/-! ## Which failures are left -/

/-- A visit with the failures that it is suppressed beside, by itself or as part of what hangs off
another failure, innermost first. -/
structure Placement (ι : Type) extends Visit ι where
  beside : List (Failure ι)

namespace Failure

mutual

/-- The placements of a failure that is suppressed beside others, and of all that hangs off it. Its
depth is the number of these others. -/
def placementsFrom (beside : List (Failure ι)) (relation : Relation) :
    Failure ι → List (Placement ι)
  | f@⟨_, _, _, _, _, suppressed, cause⟩ =>
    ⟨⟨beside.length, relation, f⟩, beside⟩ ::
      (placementsIn (f :: beside) suppressed ++ causePlacements beside cause)

def causePlacements (beside : List (Failure ι)) : Cause ι (Failure ι) → List (Placement ι)
  | .owned c => placementsFrom beside .cause c
  | _ => []

def placementsIn (beside : List (Failure ι)) : List (Failure ι) → List (Placement ι)
  | [] => []
  | f :: fs => placementsFrom beside .suppressed f ++ placementsIn beside fs

end

def placements (f : Failure ι) : List (Placement ι) := f.placementsFrom [] .root

theorem placementsIn_eq_flatMap (beside : List (Failure ι)) (fs : List (Failure ι)) :
    placementsIn beside fs = fs.flatMap (placementsFrom beside .suppressed) := by
  induction fs with
  | nil => rfl
  | cons f fs ih => rw [placementsIn, ih, List.flatMap_cons]

theorem placementsFrom_eq_cons (beside : List (Failure ι)) (relation : Relation) (f : Failure ι) :
    f.placementsFrom beside relation = ⟨⟨beside.length, relation, f⟩, beside⟩ ::
      (f.suppressed.flatMap (placementsFrom (f :: beside) .suppressed) ++
        f.source?.toList.flatMap (placementsFrom beside .cause)) := by
  have hcause : causePlacements beside f.cause =
      f.source?.toList.flatMap (placementsFrom beside .cause) := by
    cases h : f.cause <;> simp [causePlacements, source?, h, Cause.owned?]
  rw [← hcause, ← placementsIn_eq_flatMap]
  cases f
  rw [placementsFrom]

theorem placementsFrom_map_toVisit (beside : List (Failure ι)) (relation : Relation)
    (f : Failure ι) :
    (f.placementsFrom beside relation).map (·.toVisit) = f.visits beside.length relation := by
  induction f generalizing beside relation with
  | node f ihSuppressed ihCause =>
    rw [placementsFrom_eq_cons, visits_eq_cons]
    simp only [List.map_cons, List.map_append, List.map_flatMap]
    congr 2
    · exact List.flatMap_congr fun s hs => ihSuppressed s hs (f :: beside) _
    · exact List.flatMap_congr fun c hc => ihCause c (mem_toList_source?.1 hc) beside _

theorem beside_suffix_of_mem_placementsFrom {beside : List (Failure ι)} {relation : Relation}
    {f : Failure ι} {p : Placement ι} (hp : p ∈ f.placementsFrom beside relation) :
    beside <:+ p.beside := by
  induction f generalizing beside relation with
  | node f ihSuppressed ihCause =>
    rw [placementsFrom_eq_cons, List.mem_cons, List.mem_append, List.mem_flatMap,
      List.mem_flatMap] at hp
    rcases hp with rfl | ⟨s, hs, hp⟩ | ⟨c, hc, hp⟩
    · exact List.suffix_rfl
    · exact (List.suffix_cons f beside).trans (ihSuppressed s hs hp)
    · exact ihCause c (mem_toList_source?.1 hc) hp

end Failure

/-- What a transform changes of no failure that it leaves. -/
def Visit.stamp (v : Visit ι) : Nat × ι × Text × Origin :=
  (v.depth, v.node.id, v.node.typeName, v.node.origin)

namespace Transform
open Failure

/-- Whether a failure is neither unwrapped nor suppressed beside one that is. -/
def spares (t : Transform ι) (p : Placement ι) : Bool :=
  !t.unwrapsNode p.node && p.beside.all (!t.unwrapsNode ·)

theorem filter_spares_eq_nil {t : Transform ι} {beside : List (Failure ι)} {f : Failure ι}
    (hf : t.unwrapsNode f = true) : (f.suppressed.flatMap
      (placementsFrom (f :: beside) .suppressed)).filter t.spares = [] := by
  refine List.filter_eq_nil_iff.2 fun p hp hspares => ?_
  obtain ⟨s, -, hp⟩ := List.mem_flatMap.1 hp
  have hmem : f ∈ p.beside :=
    (beside_suffix_of_mem_placementsFrom hp).subset List.mem_cons_self
  rw [spares, Bool.and_eq_true, List.all_eq_true] at hspares
  simpa [hf] using hspares.2 f hmem

theorem unwrapsNode_congr {t : Transform ι} {f g : Failure ι}
    (hlink : f.cause.backRef?.isNone = g.cause.backRef?.isNone)
    (hrules : ∀ rule ∈ t.unwraps, rule f = rule g) : t.unwrapsNode f = t.unwrapsNode g := by
  rw [unwrapsNode, unwrapsNode, hlink]
  congr 1
  rw [Bool.eq_iff_iff, List.any_eq_true, List.any_eq_true]
  exact exists_congr fun rule => and_congr_right fun hrule => by rw [hrules rule hrule]

/-- Whether no unwrap rule looks at the cause of a failure. -/
def BlindToCauses (t : Transform ι) : Prop :=
  ∀ rule ∈ t.unwraps, ∀ (f : Failure ι) (cause : Cause ι (Failure ι)),
    rule { f with cause } = rule f

variable [DecidableEq ι] {t : Transform ι}

theorem owned?_applyCause (t : Transform ι) (cause : Cause ι (Failure ι)) :
    (t.applyCause cause).owned? = cause.owned?.bind t.apply := by
  cases cause with
  | none => rfl
  | owned c => cases h : t.apply c <;> simp [applyCause, h, Cause.owned?]
  | backRef link => rfl

theorem BlindToCauses.unwrapsNode_applyCause (h : t.BlindToCauses) (f : Failure ι) :
    t.unwrapsNode { f with cause := t.applyCause f.cause } = t.unwrapsNode f :=
  unwrapsNode_congr (by rw [backRef?_applyCause]) fun rule hrule => h rule hrule f _

theorem BlindToCauses.apply_of_unwrapsNode (h : t.BlindToCauses) {f : Failure ι}
    (hf : t.unwrapsNode f = true) :
    t.apply f = (f.source?.bind t.apply).map fun d => d.retarget f.id d.link := by
  rw [apply_eq, if_pos ((h.unwrapsNode_applyCause f).trans hf), replacement?, source?,
    owned?_applyCause]
  rfl

theorem BlindToCauses.apply_of_not_unwrapsNode (h : t.BlindToCauses) {f : Failure ι}
    (hf : ¬ t.unwrapsNode f = true) : t.apply f = some (t.keep f) := by
  rw [apply_eq, if_neg (by rwa [h.unwrapsNode_applyCause f])]

theorem BlindToCauses.apply_eq_none_iff (h : t.BlindToCauses) (f : Failure ι) :
    t.apply f = none ↔ ∀ n ∈ f.causeChain, t.unwrapsNode n = true := by
  induction f with
  | node f _ ihCause =>
    rw [causeChain_eq_cons, List.forall_mem_cons]
    by_cases hf : t.unwrapsNode f = true
    · rw [h.apply_of_unwrapsNode hf, Option.map_eq_none_iff, and_iff_right hf]
      cases hsource : f.source? with
      | none => simp
      | some c => simpa using ihCause c (source?_eq_some_iff.1 hsource)
    · simp [h.apply_of_not_unwrapsNode hf, hf]

theorem map_stamp_visits_retarget (old : ι) (link : BackRef ι) (depth : Nat)
    (relation other : Relation) (f : Failure ι) :
    ((f.retarget old link).visits depth relation).map Visit.stamp =
      (f.visits depth other).map Visit.stamp := by
  have hsame : (f.visits depth relation).map Visit.stamp =
      (f.visits depth other).map Visit.stamp := by
    rw [visits_eq_cons, visits_eq_cons depth other]
    rfl
  rw [visits_retarget, List.map_map, ← hsame]
  refine List.map_congr_left fun v _ => ?_
  simp [Visit.stamp]

/-- What is left of a failure that is suppressed beside failures that stay. -/
theorem BlindToCauses.visits_apply (h : t.BlindToCauses) (f : Failure ι)
    {beside : List (Failure ι)} (hbeside : ∀ b ∈ beside, ¬ t.unwrapsNode b = true)
    (relation : Relation) :
    ((t.apply f).toList.flatMap (visits beside.length relation)).map Visit.stamp =
      ((f.placementsFrom beside relation).filter t.spares).map (·.toVisit.stamp) := by
  induction f generalizing beside relation with
  | node f ihSuppressed ihCause =>
    have hbelow : ((f.source?.bind t.apply).toList.flatMap (visits beside.length .cause)).map
        Visit.stamp = ((f.source?.toList.flatMap (placementsFrom beside .cause)).filter
          t.spares).map (·.toVisit.stamp) := by
      cases hsource : f.source? with
      | none => rfl
      | some c => simpa using ihCause c (source?_eq_some_iff.1 hsource) hbeside .cause
    rw [placementsFrom_eq_cons]
    by_cases hf : t.unwrapsNode f = true
    · rw [List.filter_cons_of_neg (by simp [spares, hf]), List.filter_append,
        filter_spares_eq_nil hf, List.nil_append, ← hbelow, h.apply_of_unwrapsNode hf]
      cases hleft : f.source?.bind t.apply with
      | none => rfl
      | some d => simpa using map_stamp_visits_retarget f.id d.link _ relation .cause d
    · have hbesides : ((f.suppressed.filterMap t.apply).flatMap
          (visits (beside.length + 1) .suppressed)).map Visit.stamp =
          ((f.suppressed.flatMap (placementsFrom (f :: beside) .suppressed)).filter
            t.spares).map (·.toVisit.stamp) := by
        rw [List.filterMap_eq_flatMap_toList, List.flatMap_assoc, List.map_flatMap,
          List.filter_flatMap, List.map_flatMap]
        refine List.flatMap_congr fun s hs => ?_
        exact ihSuppressed s hs (List.forall_mem_cons.2 ⟨hf, hbeside⟩) .suppressed
      have hsource : (t.keep f).source? = f.source?.bind t.apply := by
        rw [source?, keep_cause, owned?_applyCause, source?]
      have hhere : t.spares ⟨⟨beside.length, relation, f⟩, beside⟩ = true := by
        simpa [spares, hf] using hbeside
      rw [h.apply_of_not_unwrapsNode hf, Option.toList_some, List.flatMap_singleton, visits_eq_cons,
        keep_suppressed, hsource, List.filter_cons_of_pos hhere, List.filter_append]
      simp only [List.map_cons, List.map_append, hbelow, hbesides]
      congr 1
      simp [Visit.stamp, keep]

/-- Exactly those failures are left that are neither unwrapped nor suppressed beside one that is.
They are visited in the order in which they were, at the depths at which they were. -/
theorem walk_of_apply (h : t.BlindToCauses) (g : Failure ι) :
    g.placements.map (·.toVisit) = g.walk ∧
      ((t.apply g).toList.flatMap walk).map Visit.stamp =
        (g.placements.filter t.spares).map (·.toVisit.stamp) ∧
      (t.apply g = none ↔ ∀ n ∈ g.causeChain, t.unwrapsNode n = true) :=
  ⟨placementsFrom_map_toVisit [] .root g, h.visits_apply g (List.forall_mem_nil _) .root,
    h.apply_eq_none_iff g⟩

/-- Wrappers as the root, in a chain of causes and among the suppressed. Another one has a link for
a cause, and all that is suppressed beside the root goes with it. -/
def mixed : Failure Nat :=
  let looped := { ofType 6 ['W'] with cause := .backRef ⟨5, ['B']⟩ }
  let kept := { ofType 5 ['B'] with suppressed := [looped] }
  let beside := { ofType 4 ['W'] with cause := .owned kept }
  let inner := { ofType 3 ['C'] with suppressed := [ofType 7 ['W'], beside] }
  { ofType 0 ['W'] with
    suppressed := [{ ofType 1 ['A'] with cause := .owned (ofType 2 ['A']) }]
    cause := .owned inner }

theorem walk_mixed : unwrapping.BlindToCauses ∧ mixed.ids = [0, 1, 2, 3, 7, 4, 5, 6] ∧
    ((unwrapping.apply mixed).toList.flatMap walk).map Visit.stamp =
      [(0, 3, ['C'], .resolved), (1, 5, ['B'], .resolved), (2, 6, ['W'], .resolved)] := by
  have hblind : unwrapping.BlindToCauses := by
    simp [Transform.BlindToCauses, unwrapping]
  exact ⟨hblind, by decide, (walk_of_apply hblind mixed).2.1.trans (by decide)⟩

end Transform
end Stacktrace
