import Mathlib.Data.List.Perm.Basic
import Stacktrace.Failure.Walker
import Stacktrace.Proofs.Lineage

/-!
# Ways through a graph that agree

The chain of causes is what the walk visits at depth zero, and also what one source after the other
gives; it ends with the root cause. A search by identity goes through the failures that the walk
visits, but in another order, in which the cause of a failure comes before what is suppressed beside
it (`searched`). So it finds a failure for every identity that the walk comes across, and the first
one in that order where several failures have it (`navigation_agrees`).
-/

namespace Stacktrace
variable {ι : Type}

namespace Failure

/-! ## Along causes -/

theorem le_depth_of_mem_visits {depth : Nat} {relation : Relation} {f : Failure ι} {v : Visit ι}
    (hv : v ∈ f.visits depth relation) : depth ≤ v.depth := by
  induction f generalizing depth relation with
  | node f ihSuppressed ihCause =>
    rcases mem_visits.1 hv with rfl | ⟨s, hs, hv⟩ | ⟨c, hc, hv⟩
    · exact Nat.le_refl depth
    · exact Nat.le_of_succ_le (ihSuppressed s hs hv)
    · exact ihCause c hc hv

theorem filter_visits_eq_causeChain (depth : Nat) (relation : Relation) (f : Failure ι) :
    ((f.visits depth relation).filter (·.depth = depth)).map (·.node) = f.causeChain := by
  induction f generalizing relation with
  | node f _ ihCause =>
    have hbeside : (f.suppressed.flatMap (visits (depth + 1) .suppressed)).filter
        (·.depth = depth) = [] := by
      refine List.filter_eq_nil_iff.2 fun v hv => ?_
      obtain ⟨s, -, hv⟩ := List.mem_flatMap.1 hv
      have hlt : depth < v.depth := le_depth_of_mem_visits hv
      simpa using Nat.ne_of_gt hlt
    have hbelow : ((f.source?.toList.flatMap (visits depth .cause)).filter (·.depth = depth)).map
        (·.node) = f.source?.toList.flatMap causeChain := by
      rw [List.filter_flatMap, List.map_flatMap]
      exact List.flatMap_congr fun c hc => ihCause c (mem_toList_source?.1 hc) .cause
    rw [visits_eq_cons, causeChain_eq_cons, List.filter_cons_of_pos (by simp), List.filter_append,
      hbeside, List.nil_append, List.map_cons, hbelow]

theorem causeChain_eq_cons_sources (f : Failure ι) : f.causeChain = f :: f.sources := by
  induction f with
  | node f _ ihCause =>
    rw [causeChain_eq_cons, sources]
    split
    · next hc => rw [hc]; rfl
    · next c hc =>
      rw [hc, Option.toList_some, List.flatMap_singleton, ihCause c (source?_eq_some_iff.1 hc)]

theorem rootCause_eq (f : Failure ι) : f.rootCause = f.source?.elim f rootCause := by
  obtain ⟨id, typeName, message, frames, origin, suppressed, cause⟩ := f
  cases cause <;> rfl

theorem getLast?_causeChain (f : Failure ι) : f.causeChain.getLast? = some f.rootCause := by
  induction f with
  | node f _ ihCause =>
    rw [causeChain_eq_cons, rootCause_eq]
    cases hc : f.source? with
    | none => rfl
    | some c =>
      rw [Option.toList_some, List.flatMap_singleton, List.getLast?_cons,
        ihCause c (source?_eq_some_iff.1 hc)]
      rfl

/-! ## By identity -/

mutual

/-- The failures of a graph in the order in which a search goes through them. -/
def searched : Failure ι → List (Failure ι)
  | f@⟨_, _, _, _, _, suppressed, cause⟩ => f :: (searchedCause cause ++ searchedIn suppressed)

def searchedCause : Cause ι (Failure ι) → List (Failure ι)
  | .owned c => searched c
  | _ => []

def searchedIn : List (Failure ι) → List (Failure ι)
  | [] => []
  | f :: fs => searched f ++ searchedIn fs

end

theorem searchedIn_eq_flatMap (fs : List (Failure ι)) : searchedIn fs = fs.flatMap searched := by
  induction fs with
  | nil => rfl
  | cons f fs ih => rw [searchedIn, ih, List.flatMap_cons]

theorem searched_eq_cons (f : Failure ι) : f.searched =
    f :: (f.source?.toList.flatMap searched ++ f.suppressed.flatMap searched) := by
  have hcause : searchedCause f.cause = f.source?.toList.flatMap searched := by
    cases h : f.cause <;> simp [searchedCause, source?, h, Cause.owned?]
  rw [← hcause, ← searchedIn_eq_flatMap]
  cases f
  rw [searched]

theorem searched_perm_nodes (f : Failure ι) : f.searched.Perm f.nodes := by
  induction f with
  | node f ihSuppressed ihCause =>
    have hbeside : (f.suppressed.flatMap searched).Perm (f.suppressed.flatMap nodes) :=
      List.Perm.flatMap_left _ ihSuppressed
    have hbelow : (f.source?.toList.flatMap searched).Perm (f.source?.toList.flatMap nodes) :=
      List.Perm.flatMap_left _ fun c hc => ihCause c (mem_toList_source?.1 hc)
    rw [searched_eq_cons, nodes_eq_cons, children, List.flatMap_append]
    exact (List.perm_append_comm.trans (hbeside.append hbelow)).cons f

theorem find?_eq_find?_searched [DecidableEq ι] (i : ι) (f : Failure ι) :
    f.find? i = f.searched.find? (·.id = i) := by
  induction f with
  | node f ihSuppressed ihCause =>
    have hbelow : f.source?.bind (find? i) =
        (f.source?.toList.flatMap searched).find? (·.id = i) := by
      cases hc : f.source? with
      | none => rfl
      | some c => simpa using ihCause c (source?_eq_some_iff.1 hc)
    have hbeside : f.suppressed.findSome? (find? i) =
        (f.suppressed.flatMap searched).find? (·.id = i) := by
      rw [List.find?_flatMap, ← List.head?_filterMap, ← List.head?_filterMap,
        List.filterMap_congr ihSuppressed]
    rw [find?_eq, searched_eq_cons, List.find?_cons, List.find?_append, hbelow, hbeside]
    rw [Option.orElse_eq_orElse, Option.orElse_eq_or]
    by_cases h : f.id = i
    · rw [if_pos h, decide_eq_true h]
    · rw [if_neg h, decide_eq_false h]

end Failure

/-- The chain of causes, the sources, the root cause and the search by identity give the failures
that the walk visits, each in its own order. -/
theorem navigation_agrees [DecidableEq ι] (g : Failure ι) :
    (CauseChain.start g).items =
        ((Walker.start g).visits.filter (·.depth = 0)).map (·.node) ∧
      (CauseChain.start g).items = g :: g.sources ∧
      (CauseChain.start g).items.getLast? = some g.rootCause ∧
      (∀ i, (g.find? i).isSome ↔ ∃ v ∈ (Walker.start g).visits, v.node.id = i) ∧
      (∀ i n, g.find? i = some n → n.id = i ∧ ∃ v ∈ (Walker.start g).visits, v.node = n) ∧
      (g.ids.Nodup → ∀ v ∈ (Walker.start g).visits, g.find? v.node.id = some v.node) ∧
      (∀ i, g.find? i = g.searched.find? (·.id = i)) ∧
      g.searched.Perm ((Walker.start g).visits.map (·.node)) := by
  rw [CauseChain.items_start, Walker.visits_start]
  refine ⟨(g.filter_visits_eq_causeChain 0 .root).symm, g.causeChain_eq_cons_sources,
    g.getLast?_causeChain, fun i => ?_, fun i n hn => ?_, fun hids v hv => ?_,
    fun i => g.find?_eq_find?_searched i, g.searched_perm_nodes⟩
  · constructor
    · intro hsome
      obtain ⟨n, hn⟩ := Option.isSome_iff_exists.1 hsome
      obtain ⟨hid, hmem⟩ := Failure.id_and_mem_of_find? hn
      obtain ⟨v, hv, rfl⟩ := List.mem_map.1 hmem
      exact ⟨v, hv, hid⟩
    · rintro ⟨v, hv, rfl⟩
      exact Failure.find?_isSome_of_mem_ids (List.mem_map_of_mem (List.mem_map_of_mem hv))
  · obtain ⟨hid, hmem⟩ := Failure.id_and_mem_of_find? hn
    exact ⟨hid, List.mem_map.1 hmem⟩
  · exact Failure.find?_of_mem_nodes hids (List.mem_map_of_mem hv)

/-- A failure with a cause and one suppressed beside it, each of which has another one below it. -/
def forked : Failure Nat :=
  let beside := { Failure.ofType 1 ['S'] with cause := .owned (.ofType 2 ['C']) }
  let below := { Failure.ofType 3 ['C'] with suppressed := [.ofType 4 ['S']] }
  { Failure.ofType 0 ['T'] with suppressed := [beside], cause := .owned below }

theorem navigation_forked : forked.ids.Nodup ∧
    (∀ v ∈ (Walker.start forked).visits, forked.find? v.node.id = some v.node) ∧
    forked.find? 4 = some (.ofType 4 ['S']) ∧
    (∃ v ∈ (Walker.start forked).visits, v.node = .ofType 4 ['S']) ∧
    (CauseChain.start forked).items.map (·.id) = [0, 3] ∧
    forked.searched.map (·.id) = [0, 3, 4, 1, 2] := by
  have hids : forked.ids.Nodup := by decide
  have hfound : forked.find? 4 = some (.ofType 4 ['S']) := rfl
  obtain ⟨-, -, -, -, hvisited, hdistinct, -, -⟩ := navigation_agrees forked
  refine ⟨hids, hdistinct hids, hfound, (hvisited 4 _ hfound).2, ?_, rfl⟩
  rw [CauseChain.items_start]
  rfl

/-! Of two failures with one identity, a search finds the cause. -/

example :
    let below := Failure.ofType 1 ['C']
    let top := { Failure.ofType 0 ['T'] with
      suppressed := [Failure.ofType 1 ['S']], cause := .owned below }
    top.find? 1 = some below :=
  rfl

end Stacktrace
