import Mathlib.Data.List.Find
import Stacktrace.Proofs.Lineage
import Stacktrace.Transform.Basic

/-!
# Links in transformed graphs

A transform takes failures out of chains of causes and points the links to them at the failures
that took their places. `Leaves` says what becomes of one failure: it is kept, with what is left of
the failures that hang off it, or what is left of its cause takes its place. From this follow, by
induction on the graph, that no identity is new (`Leaves.ids_sublist`), that links go on leading
upward (`Leaves.linksUpward`), and which failure each of them leads to (`Leaves.link_origin`): the
first on the chain of causes of its old target that is left.
-/

namespace Stacktrace
variable {ι : Type} [DecidableEq ι]

namespace Failure

/-- The first failure on a chain of causes whose identity is among those that are left. -/
def survivor? (left : List ι) (f : Failure ι) : Option (Failure ι) :=
  f.causeChain.find? (·.id ∈ left)

theorem survivor?_of_id_mem {left : List ι} {f : Failure ι} (h : f.id ∈ left) :
    f.survivor? left = some f := by
  rw [survivor?, causeChain_eq_cons, List.find?_cons_of_pos (by simpa using h)]

theorem survivor?_of_id_not_mem {left : List ι} {f c : Failure ι} (hcause : f.cause = .owned c)
    (h : f.id ∉ left) : f.survivor? left = c.survivor? left := by
  rw [survivor?, causeChain_eq_cons, List.find?_cons_of_neg (by simpa using h),
    source?_eq_some_iff.2 hcause]
  simp [survivor?]

theorem id_mem_of_survivor? {left : List ι} {f n : Failure ι} (h : f.survivor? left = some n) :
    n.id ∈ left := by
  simpa using List.find?_some h

theorem survivor?_congr {left right : List ι} {f : Failure ι}
    (h : ∀ i ∈ f.ids, i ∈ left ↔ i ∈ right) : f.survivor? left = f.survivor? right := by
  refine List.find?_congr fun n hn => ?_
  have hid : n.id ∈ f.ids := List.mem_map_of_mem (mem_nodes_of_mem_causeChain hn)
  simp [h n.id hid]

/-! ## Pointing links elsewhere -/

section Retarget
variable (old : ι) (link : BackRef ι) (f : Failure ι)

theorem retarget_eq : f.retarget old link =
    { f with
      suppressed := f.suppressed.map (retarget old link)
      cause := retargetCause old link f.cause } := by
  cases f
  rw [retarget, retargetIn_eq_map]

@[simp]
theorem retarget_id : (f.retarget old link).id = f.id := by
  rw [retarget_eq]

@[simp]
theorem retarget_suppressed :
    (f.retarget old link).suppressed = f.suppressed.map (retarget old link) := by
  rw [retarget_eq]

@[simp]
theorem retarget_cause : (f.retarget old link).cause = retargetCause old link f.cause := by
  rw [retarget_eq]

theorem backRef?_retargetCause (cause : Cause ι (Failure ι)) :
    (retargetCause old link cause).backRef? =
      cause.backRef?.map fun found => if found.target = old then link else found := by
  cases cause <;> rfl

theorem retargetCause_eq_owned_iff {cause : Cause ι (Failure ι)} {c : Failure ι} :
    retargetCause old link cause = .owned c ↔ ∃ d, cause = .owned d ∧ d.retarget old link = c := by
  cases cause <;> simp [retargetCause]

theorem children_retarget : (f.retarget old link).children = f.children.map (retarget old link) := by
  rw [children, children, retarget_suppressed, source?, source?, retarget_cause, List.map_append]
  cases f.cause <;> rfl

theorem nodes_retarget : (f.retarget old link).nodes = f.nodes.map (retarget old link) :=
  nodes_map (children_retarget old link) f

theorem ids_retarget : (f.retarget old link).ids = f.ids := by
  rw [ids, ids, nodes_retarget, List.map_map]
  exact List.map_congr_left fun n _ => retarget_id old link n

end Retarget

/-- With all links to `old` pointed at a failure further down, `old` is no longer needed above. -/
theorem allLinksUpward_retarget {old : ι} {link : BackRef ι} {above : List ι} {f : Failure ι}
    (depth : Nat) (inner : List ι) (hf : AllLinksUpward depth (inner ++ old :: above) f)
    (hlink : link.target ∈ f.id :: inner) :
    AllLinksUpward depth (inner ++ above) (f.retarget old link) := by
  -- `inner` are the failures passed since `old`, so it grows on the way down
  induction f generalizing depth inner with
  | node f ihSuppressed ihCause =>
    obtain ⟨here, suppressed, cause⟩ := all_iff.1 hf
    refine all_iff.2 ⟨?_, ?_, ?_⟩
    · intro found hfound
      rw [retarget_cause, backRef?_retargetCause, Option.mem_def, Option.map_eq_some_iff] at hfound
      obtain ⟨before, hbefore, rfl⟩ := hfound
      have hup := here before hbefore
      rw [retarget_id]
      split
      · simp only [List.mem_cons, List.mem_append] at hlink ⊢
        tauto
      · simp only [List.mem_cons, List.mem_append] at hup ⊢
        tauto
    · intro s hs
      rw [retarget_suppressed, List.mem_map] at hs
      obtain ⟨s, hs, rfl⟩ := hs
      rw [retarget_id]
      exact ihSuppressed s hs _ (f.id :: inner) (suppressed s hs) (List.mem_cons_of_mem _ hlink)
    · intro c hc
      rw [retarget_cause, retargetCause_eq_owned_iff] at hc
      obtain ⟨c, hc, rfl⟩ := hc
      rw [retarget_id]
      exact ihCause c hc _ (f.id :: inner) (cause c hc) (List.mem_cons_of_mem _ hlink)

end Failure

namespace Transform
open Failure

section EditNode
variable {ι : Type} (t : Transform ι) (f : Failure ι)

@[simp]
theorem editNode_id : (t.editNode f).id = f.id := by
  rw [editNode]
  split <;> rfl

@[simp]
theorem editNode_suppressed : (t.editNode f).suppressed = f.suppressed := by
  rw [editNode]
  split <;> rfl

@[simp]
theorem editNode_cause : (t.editNode f).cause = f.cause := by
  rw [editNode]
  split <;> rfl

end EditNode

/-- A failure that stays, with what is left of all that hangs off it. -/
def keep (t : Transform ι) (f : Failure ι) : Failure ι := t.editNode
  { f with suppressed := f.suppressed.filterMap t.apply, cause := t.applyCause f.cause }

theorem apply_eq (t : Transform ι) (f : Failure ι) : t.apply f =
    if t.unwrapsNode { f with cause := t.applyCause f.cause } then
      replacement? { f with cause := t.applyCause f.cause }
    else some (t.keep f) := by
  cases f
  rw [apply, applyIn_eq_filterMap]
  rfl

theorem applyKeepingRoot_eq (t : Transform ι) (f : Failure ι) : t.applyKeepingRoot f =
    if t.unwrapsNode { f with cause := t.applyCause f.cause } then
      (replacement? { f with cause := t.applyCause f.cause }).getD (t.keep f)
    else t.keep f := by
  rw [applyKeepingRoot, applyIn_eq_filterMap]
  rfl

/-- What is left of a failure: itself, or what is left of its cause, with the links to the failure
leading there. -/
inductive Leaves (t : Transform ι) (f : Failure ι) : Failure ι → Prop
  | kept : Leaves t f (t.keep f)
  | replaced {c d : Failure ι} (cause_eq : f.cause = .owned c) (apply_eq : t.apply c = some d) :
      Leaves t f (d.retarget f.id d.link)

theorem applyCause_eq_owned_iff {t : Transform ι} {cause : Cause ι (Failure ι)} {d : Failure ι} :
    t.applyCause cause = .owned d ↔ ∃ c, cause = .owned c ∧ t.apply c = some d := by
  cases cause with
  | none => simp [applyCause]
  | owned c => cases h : t.apply c <;> simp [applyCause, h]
  | backRef link => simp [applyCause]

theorem backRef?_applyCause (t : Transform ι) (cause : Cause ι (Failure ι)) :
    (t.applyCause cause).backRef? = cause.backRef? := by
  cases cause with
  | none => rfl
  | owned c => cases h : t.apply c <;> simp [applyCause, h, Cause.backRef?]
  | backRef link => rfl

theorem leaves_of_replacement? {t : Transform ι} {f r : Failure ι}
    (h : replacement? { f with cause := t.applyCause f.cause } = some r) : t.Leaves f r := by
  rw [replacement?, Option.map_eq_some_iff] at h
  obtain ⟨d, hd, rfl⟩ := h
  obtain ⟨c, hc, happly⟩ := applyCause_eq_owned_iff.1 (source?_eq_some_iff.1 hd)
  exact .replaced hc happly

theorem leaves_of_apply {t : Transform ι} {f r : Failure ι} (h : t.apply f = some r) :
    t.Leaves f r := by
  rw [apply_eq] at h
  split at h
  · exact leaves_of_replacement? h
  · obtain rfl := Option.some.inj h
    exact .kept

theorem leaves_applyKeepingRoot (t : Transform ι) (f : Failure ι) :
    t.Leaves f (t.applyKeepingRoot f) := by
  rw [applyKeepingRoot_eq]
  split
  · cases h : replacement? { f with cause := t.applyCause f.cause } with
    | none => exact .kept
    | some r => exact leaves_of_replacement? h
  · exact .kept

@[simp]
theorem keep_id (t : Transform ι) (f : Failure ι) : (t.keep f).id = f.id := by
  rw [keep, editNode_id]

@[simp]
theorem keep_suppressed (t : Transform ι) (f : Failure ι) :
    (t.keep f).suppressed = f.suppressed.filterMap t.apply := by
  rw [keep, editNode_suppressed]

@[simp]
theorem keep_cause (t : Transform ι) (f : Failure ι) : (t.keep f).cause = t.applyCause f.cause := by
  rw [keep, editNode_cause]

theorem children_keep (t : Transform ι) (f : Failure ι) :
    (t.keep f).children = f.children.filterMap t.apply := by
  rw [children, children, keep_suppressed, List.filterMap_append, source?, source?, keep_cause]
  congr 1
  cases f.cause with
  | none => rfl
  | owned c => cases h : t.apply c <;> simp [applyCause, Cause.owned?, h]
  | backRef link => rfl

/-! ## Identities -/

theorem flatMap_ids_sublist {t : Transform ι} {fs : List (Failure ι)}
    (h : ∀ c ∈ fs, ∀ d, t.apply c = some d → d.ids.Sublist c.ids) :
    ((fs.filterMap t.apply).flatMap ids).Sublist (fs.flatMap ids) := by
  induction fs with
  | nil => exact .slnil
  | cons c fs ih =>
    have htail := ih fun c hc => h c (List.mem_cons_of_mem _ hc)
    rw [List.flatMap_cons]
    cases hc : t.apply c with
    | none =>
      rw [List.filterMap_cons_none hc]
      exact htail.trans (List.sublist_append_right _ _)
    | some d =>
      rw [List.filterMap_cons_some hc, List.flatMap_cons]
      exact (h c List.mem_cons_self d hc).append htail

theorem Leaves.ids_sublist {t : Transform ι} {f r : Failure ι} (h : t.Leaves f r) :
    r.ids.Sublist f.ids := by
  induction f using induct_children generalizing r with
  | node f ih =>
    cases h with
    | kept =>
      rw [ids_eq_cons, ids_eq_cons, keep_id, children_keep]
      exact (flatMap_ids_sublist fun c hc d hd => ih c hc (leaves_of_apply hd)).cons_cons _
    | replaced hcause happly =>
      have hmem := mem_children.2 (.inr hcause)
      rw [ids_retarget, ids_eq_cons f]
      refine (ih _ hmem (leaves_of_apply happly)).trans ?_
      exact (List.sublist_flatten_of_mem (List.mem_map_of_mem hmem)).cons _

theorem mem_ids_keep_iff {t : Transform ι} {f c d : Failure ι} {i : ι} (hf : f.ids.Nodup)
    (hc : c ∈ f.children) (hd : t.apply c = some d) (hi : i ∈ c.ids) :
    i ∈ (t.keep f).ids ↔ i ∈ d.ids := by
  rw [mem_ids, keep_id, children_keep]
  constructor
  · intro h
    rcases h with rfl | ⟨d', hd', hi'⟩
    · exact absurd hi (id_not_mem_ids_of_mem_children hf hc)
    · obtain ⟨c', hc', happly⟩ := List.mem_filterMap.1 hd'
      have hsame := eq_of_mem_ids_of_mem_ids hf hc hc' hi
        ((leaves_of_apply happly).ids_sublist.subset hi')
      rw [← hsame, hd] at happly
      rwa [Option.some.inj happly]
  · exact fun h => .inr ⟨d, List.mem_filterMap.2 ⟨c, hc, hd⟩, h⟩

/-! ## Links -/

theorem Leaves.allLinksUpward {t : Transform ι} {f r : Failure ι} {depth : Nat} {above : List ι}
    (h : t.Leaves f r) (hf : AllLinksUpward depth above f) : AllLinksUpward depth above r := by
  induction f generalizing r depth above with
  | node f ihSuppressed ihCause =>
    obtain ⟨here, suppressed, cause⟩ := all_iff.1 hf
    cases h with
    | kept =>
      refine all_iff.2 ⟨?_, ?_, ?_⟩
      · intro link hlink
        rw [keep_cause, backRef?_applyCause] at hlink
        rw [keep_id]
        exact here link hlink
      · intro d hd
        rw [keep_suppressed] at hd
        obtain ⟨s, hs, happly⟩ := List.mem_filterMap.1 hd
        rw [keep_id]
        exact ihSuppressed s hs (leaves_of_apply happly) (suppressed s hs)
      · intro d hd
        rw [keep_cause] at hd
        obtain ⟨c, hc, happly⟩ := applyCause_eq_owned_iff.1 hd
        rw [keep_id]
        exact ihCause c hc (leaves_of_apply happly) (cause c hc)
    | replaced hcause happly =>
      have hd := ihCause _ hcause (leaves_of_apply happly) (cause _ hcause)
      exact allLinksUpward_retarget depth [] hd List.mem_cons_self

theorem Leaves.survivor? {t : Transform ι} {f r : Failure ι} (h : t.Leaves f r)
    (hf : f.ids.Nodup) : (f.survivor? r.ids).map Failure.id = some r.id := by
  induction f generalizing r with
  | node f _ ihCause =>
    cases h with
    | kept =>
      have hid := id_mem_ids (t.keep f)
      rw [keep_id] at hid
      rw [survivor?_of_id_mem hid, keep_id]
      rfl
    | @replaced c d hcause happly =>
      have hmem := mem_children.2 (.inr hcause)
      have hleft : f.id ∉ d.ids := fun hid => id_not_mem_ids_of_mem_children hf hmem
        ((leaves_of_apply happly).ids_sublist.subset hid)
      rw [ids_retarget, retarget_id, survivor?_of_id_not_mem hcause hleft]
      exact ihCause c hcause (leaves_of_apply happly) (ids_nodup_of_mem_children hf hmem)

/-- How the target of a link that is left follows from its target before: it is still the one above
the graph, or the first failure left on the chain of causes of the old one. -/
def Follows (above : List ι) (f r : Failure ι) (old new : ι) : Prop :=
  (old ∈ above ∧ new = old) ∨
    ∃ target ∈ f.nodes, target.id = old ∧ (target.survivor? r.ids).map Failure.id = some new

theorem follows_keep {t : Transform ι} {f : Failure ι} {above : List ι} {i : ι}
    (h : i ∈ f.id :: above) : Follows above f (t.keep f) i i := by
  rcases List.mem_cons.1 h with rfl | habove
  · have hleft := id_mem_ids (t.keep f)
    rw [keep_id] at hleft
    exact .inr ⟨f, self_mem_nodes f, rfl, by rw [survivor?_of_id_mem hleft]; rfl⟩
  · exact .inl ⟨habove, rfl⟩

theorem Follows.keep {t : Transform ι} {f c d : Failure ι} {above : List ι} {old new : ι}
    (hids : f.ids.Nodup) (hc : c ∈ f.children) (hd : t.apply c = some d)
    (h : Follows (f.id :: above) c d old new) : Follows above f (t.keep f) old new := by
  rcases h with ⟨habove, rfl⟩ | ⟨target, hmem, hid, hleft⟩
  · exact follows_keep habove
  · refine .inr ⟨target, nodes_subset_of_mem_children hc hmem, hid, ?_⟩
    rw [← hleft, survivor?_congr fun i hi => ?_]
    exact mem_ids_keep_iff hids hc hd (ids_subset_of_mem_nodes hmem hi)

theorem Follows.replaced {t : Transform ι} {f c d : Failure ι} {above : List ι} {old new : ι}
    {link : BackRef ι} (hids : f.ids.Nodup) (hc : f.cause = .owned c) (hd : t.apply c = some d)
    (h : Follows (f.id :: above) c d old new) :
    Follows above f (d.retarget f.id link) old (if new = f.id then d.id else new) := by
  have hmem := mem_children.2 (.inr hc)
  have hsub := (leaves_of_apply hd).ids_sublist.subset
  have hf : f.id ∉ d.ids := fun hid => id_not_mem_ids_of_mem_children hids hmem (hsub hid)
  rw [Follows, ids_retarget]
  rcases h with ⟨habove, rfl⟩ | ⟨target, htarget, hid, hleft⟩
  · split
    -- a link to `f` goes to `d`, with which what is left of the chain of `f` begins
    · next hnew =>
      refine .inr ⟨f, self_mem_nodes f, hnew.symm, ?_⟩
      rw [survivor?_of_id_not_mem hc hf]
      exact (leaves_of_apply hd).survivor? (ids_nodup_of_mem_children hids hmem)
    · next hnew => exact .inl ⟨(List.mem_cons.1 habove).resolve_left hnew, rfl⟩
  · have hne : new ≠ f.id := by
      obtain ⟨n, hn, rfl⟩ := Option.map_eq_some_iff.1 hleft
      exact fun hid => hf (hid ▸ id_mem_of_survivor? hn)
    rw [if_neg hne]
    exact .inr ⟨target, nodes_subset_of_mem_children hmem htarget, hid, hleft⟩

/-- Each link that is left was held by the same failure before, and its target follows from the
target that it had then. -/
theorem Leaves.link_origin {t : Transform ι} {f r : Failure ι} {depth : Nat} {above : List ι}
    (h : t.Leaves f r) (hids : f.ids.Nodup) (hf : AllLinksUpward depth above f) {n : Failure ι}
    (hn : n ∈ r.nodes) {link : BackRef ι} (hlink : link ∈ n.cause.backRef?) :
    ∃ holder ∈ f.nodes, holder.id = n.id ∧
      ∃ old ∈ holder.cause.backRef?, Follows above f r old.target link.target := by
  induction f generalizing r depth above n link with
  | node f ihSuppressed ihCause =>
    obtain ⟨here, suppressed, cause⟩ := all_iff.1 hf
    cases h with
    | kept =>
      rcases mem_nodes.1 hn with rfl | ⟨d, hd, hn⟩
      · rw [keep_cause, backRef?_applyCause] at hlink
        exact ⟨f, self_mem_nodes f, (keep_id t f).symm, link, hlink, follows_keep (here link hlink)⟩
      · rw [children_keep] at hd
        obtain ⟨c, hc, happly⟩ := List.mem_filterMap.1 hd
        have hnodup := ids_nodup_of_mem_children hids hc
        obtain ⟨holder, hholder, hid, old, hold, hfollows⟩ : ∃ holder ∈ c.nodes, holder.id = n.id ∧
            ∃ old ∈ holder.cause.backRef?, Follows (f.id :: above) c d old.target link.target := by
          rcases mem_children.1 hc with hs | hcause
          · exact ihSuppressed c hs (leaves_of_apply happly) hnodup (suppressed c hs) hn hlink
          · exact ihCause c hcause (leaves_of_apply happly) hnodup (cause c hcause) hn hlink
        exact ⟨holder, nodes_subset_of_mem_children hc hholder, hid, old, hold,
          hfollows.keep hids hc happly⟩
    | @replaced c d hcause happly =>
      have hmem := mem_children.2 (.inr hcause)
      rw [nodes_retarget, List.mem_map] at hn
      obtain ⟨n, hn, rfl⟩ := hn
      rw [retarget_cause, backRef?_retargetCause, Option.mem_def, Option.map_eq_some_iff] at hlink
      obtain ⟨found, hfound, rfl⟩ := hlink
      obtain ⟨holder, hholder, hid, old, hold, hfollows⟩ := ihCause c hcause (leaves_of_apply happly)
        (ids_nodup_of_mem_children hids hmem) (cause c hcause) hn hfound
      refine ⟨holder, nodes_subset_of_mem_children hmem hholder, ?_, old, hold, ?_⟩
      · rw [retarget_id, hid]
      · rw [apply_ite BackRef.target]
        exact hfollows.replaced hids hcause happly

/-- Whether every link of `r` leads to its holder or to a failure above it, and there to the first
failure left in `r` on the chain of causes of what the same holder's link led to in `g`. -/
def LinksFollow (g r : Failure ι) : Prop :=
  ∀ p ∈ r.lineages, ∀ link ∈ p.node.cause.backRef?,
    ∃ target ∈ p.path, target.id = link.target ∧ r.resolve? link = some target ∧
      ∃ holder ∈ g.nodes, holder.id = p.node.id ∧ ∃ old ∈ holder.cause.backRef?,
        ∃ before, g.resolve? old = some before ∧
          (before.survivor? r.ids).map Failure.id = some target.id

/-- Links survive every transform: none is left without a target. -/
theorem linksFollow_of_transformed {t : Transform ι} {g r : Failure ι} (hids : g.ids.Nodup)
    (hlinks : g.Anchored) (hr : t.apply g = some r ∨ t.applyKeepingRoot g = r) :
    LinksFollow g r := by
  have hleaves : t.Leaves g r := by
    rcases hr with happly | rfl
    · exact leaves_of_apply happly
    · exact leaves_applyKeepingRoot t g
  have hup := anchored_iff.1 hlinks
  have hrids : r.ids.Nodup := hids.sublist hleaves.ids_sublist
  intro p hp link hlink
  have hmem : link.target ∈ p.path.map Failure.id :=
    anchored_iff.2 (hleaves.allLinksUpward hup) p hp link hlink
  obtain ⟨target, htarget, hid⟩ := List.mem_map.1 hmem
  refine ⟨target, htarget, hid, ?_, ?_⟩
  · rw [resolve?, ← hid]
    exact find?_of_mem_nodes hrids (mem_nodes_of_mem_path hp htarget)
  · have hnode := mem_nodes_of_mem_path hp List.mem_cons_self
    obtain ⟨holder, hholder, hsame, old, hold, hfollows⟩ := hleaves.link_origin hids hup hnode hlink
    rcases hfollows with ⟨habove, -⟩ | ⟨before, hbefore, hbeforeId, hleft⟩
    · exact absurd habove List.not_mem_nil
    · refine ⟨holder, hholder, hsame, old, hold, before, ?_, by rw [hid, hleft]⟩
      rw [resolve?, ← hbeforeId]
      exact find?_of_mem_nodes hids hbefore

/-- Two wrappers of one failure, with links to both of them below it. -/
def wrapped : Failure Nat :=
  let leaf := { ofType 4 ['L'] with cause := .backRef ⟨1, ['W']⟩ }
  let inner := { ofType 3 ['I'] with suppressed := [leaf], cause := .backRef ⟨2, ['W']⟩ }
  let wrapper := { ofType 2 ['W'] with cause := .owned inner }
  { ofType 0 ['T'] with cause := .owned { ofType 1 ['W'] with cause := .owned wrapper } }

def unwrapped : Failure Nat :=
  let leaf := { ofType 4 ['L'] with cause := .backRef ⟨3, ['I']⟩ }
  let inner := { ofType 3 ['I'] with suppressed := [leaf], cause := .backRef ⟨3, ['I']⟩ }
  { ofType 0 ['T'] with cause := .owned inner }

def unwrapping : Transform Nat := { unwraps := [fun f => f.typeName = ['W']] }

theorem linksFollow_unwrapped : wrapped.ids.Nodup ∧ wrapped.Anchored ∧
    unwrapping.apply wrapped = some unwrapped ∧ LinksFollow wrapped unwrapped :=
  have happly : unwrapping.apply wrapped = some unwrapped := rfl
  ⟨by decide, by decide, happly,
    linksFollow_of_transformed (by decide) (by decide) (.inl happly)⟩

end Transform
end Stacktrace
