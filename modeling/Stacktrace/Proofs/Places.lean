import Mathlib.Data.List.Basic
import Stacktrace.Failure.Walker
import Stacktrace.Proofs.Lineage
import Stacktrace.Session.Address

/-!
# Places in the order of the walk

`places` lists the places of a graph. It lists each of them once and nothing else (`mem_places`), in
the order in which a failure comes before all that hangs off it, and one that is suppressed, with
all that hangs off it, before those after it and before the cause (`pairwise_places`). The walk
makes one visit at each of these places. Its depth is the number of suppressed edges on the way
there (`map_some_visits`).
-/

namespace Stacktrace

namespace Hop

def relation : Hop → Relation
  | .cause => .cause
  | .suppressed _ => .suppressed

/-- What is behind the first hop comes before what is behind the second, which is one from the same
failure. -/
inductive Before : Hop → Hop → Prop
  | suppressed {i j : Nat} (h : i < j) : Before (.suppressed i) (.suppressed j)
  | cause (i : Nat) : Before (.suppressed i) .cause

theorem not_before_self (h : Hop) : ¬ h.Before h := by
  intro hself
  cases hself with
  | suppressed hlt => exact Nat.lt_irrefl _ hlt

/-- The number of suppressed edges among some hops. -/
def depth (hops : List Hop) : Nat := hops.countP (·.relation = .suppressed)

end Hop

namespace Failure
variable {ι : Type}

mutual

def places : Failure ι → List (List Hop)
  | ⟨_, _, _, _, _, suppressed, cause⟩ => [] :: (placesIn 0 suppressed ++ causePlaces cause)

def causePlaces : Cause ι (Failure ι) → List (List Hop)
  | .owned c => (places c).map (.cause :: ·)
  | _ => []

/-- The places behind the hops to some suppressed failures, which are numbered from `i` on. -/
def placesIn (i : Nat) : List (Failure ι) → List (List Hop)
  | [] => []
  | f :: fs => (places f).map (.suppressed i :: ·) ++ placesIn (i + 1) fs

end

/-- The visit at a place, if it is one of a failure that stands at a depth and in a relation. -/
def visitAt? (depth : Nat) (relation : Relation) (f : Failure ι) (hops : List Hop) :
    Option (Visit ι) :=
  (f.at? hops).map fun n =>
    ⟨depth + Hop.depth hops, (hops.getLast?.map Hop.relation).getD relation, n⟩

theorem placesIn_eq_flatMap (i : Nat) (fs : List (Failure ι)) :
    placesIn i fs = (fs.zipIdx i).flatMap fun s => s.1.places.map (.suppressed s.2 :: ·) := by
  induction fs generalizing i with
  | nil => rfl
  | cons f fs ih => rw [placesIn, ih, List.zipIdx_cons, List.flatMap_cons]

theorem places_eq_cons (f : Failure ι) : f.places =
    [] :: (f.suppressed.zipIdx.flatMap (fun s => s.1.places.map (.suppressed s.2 :: ·)) ++
      f.source?.toList.flatMap fun c => c.places.map (.cause :: ·)) := by
  rw [← placesIn_eq_flatMap]
  obtain ⟨id, typeName, message, frames, origin, suppressed, cause⟩ := f
  cases cause <;> simp [places, causePlaces, source?, Cause.owned?]

theorem mem_of_mem_zipIdx {fs : List (Failure ι)} {s : Failure ι × Nat} (h : s ∈ fs.zipIdx) :
    s.1 ∈ fs := List.mem_of_getElem? (List.mem_zipIdx_iff_getElem?.1 h)

theorem cons_mem_places {f : Failure ι} {hop : Hop} {hops : List Hop} :
    hop :: hops ∈ f.places ↔ ∃ n, f.hop? hop = some n ∧ hops ∈ n.places := by
  rw [places_eq_cons, List.mem_cons, List.mem_append, List.mem_flatMap, List.mem_flatMap]
  simp only [reduceCtorEq, false_or, List.mem_map, List.cons.injEq]
  cases hop with
  | cause => simp [hop?, source?]
  | suppressed i => simp [hop?, List.mem_zipIdx_iff_getElem?]

theorem mem_places {f : Failure ι} {hops : List Hop} : hops ∈ f.places ↔ (f.at? hops).isSome := by
  induction hops generalizing f with
  | nil =>
    rw [places_eq_cons]
    exact iff_of_true List.mem_cons_self rfl
  | cons hop hops ih =>
    rw [cons_mem_places, at?, Option.isSome_bind, Option.any_eq_true]
    exact exists_congr fun n => and_congr_right fun _ => ih

theorem pairwise_map_cons {hop : Hop} {ps : List (List Hop)}
    (h : ps.Pairwise (List.Lex Hop.Before)) :
    (ps.map (hop :: ·)).Pairwise (List.Lex Hop.Before) :=
  List.pairwise_map.2 (h.imp .cons)

theorem lex_of_mem_map_cons {hop other : Hop} {ps qs : List (List Hop)} (h : hop.Before other)
    {p q : List Hop} (hp : p ∈ ps.map (hop :: ·)) (hq : q ∈ qs.map (other :: ·)) :
    List.Lex Hop.Before p q := by
  obtain ⟨p, -, rfl⟩ := List.mem_map.1 hp
  obtain ⟨q, -, rfl⟩ := List.mem_map.1 hq
  exact .rel h

theorem pairwise_snd_lt_zipIdx (fs : List (Failure ι)) (i : Nat) :
    (fs.zipIdx i).Pairwise fun a b => a.2 < b.2 := by
  induction fs generalizing i with
  | nil => exact .nil
  | cons f fs ih =>
    rw [List.zipIdx_cons]
    exact List.pairwise_cons.2 ⟨fun _ hb => List.le_snd_of_mem_zipIdx hb, ih (i + 1)⟩

theorem pairwise_places (f : Failure ι) : f.places.Pairwise (List.Lex Hop.Before) := by
  induction f with
  | node f ihSuppressed ihCause =>
    have hbeside : (f.suppressed.zipIdx.flatMap fun s =>
        s.1.places.map (.suppressed s.2 :: ·)).Pairwise (List.Lex Hop.Before) := by
      refine List.pairwise_flatMap.2 ⟨?_, ?_⟩
      · exact fun s hs => pairwise_map_cons (ihSuppressed s.1 (mem_of_mem_zipIdx hs))
      · refine (pairwise_snd_lt_zipIdx f.suppressed 0).imp ?_
        exact fun hlt p hp q hq => lex_of_mem_map_cons (.suppressed hlt) hp hq
    have hbelow : (f.source?.toList.flatMap fun c => c.places.map (.cause :: ·)).Pairwise
        (List.Lex Hop.Before) := by
      cases hc : f.source? with
      | none => exact .nil
      | some c =>
        rw [Option.toList_some, List.flatMap_singleton]
        exact pairwise_map_cons (ihCause c (source?_eq_some_iff.1 hc))
    rw [places_eq_cons]
    refine List.pairwise_cons.2 ⟨?_, List.pairwise_append.2 ⟨hbeside, hbelow, ?_⟩⟩
    · intro p hp
      cases p with
      | nil => simp at hp
      | cons hop hops => exact .nil
    · intro p hp q hq
      obtain ⟨s, -, hp⟩ := List.mem_flatMap.1 hp
      obtain ⟨c, -, hq⟩ := List.mem_flatMap.1 hq
      exact lex_of_mem_map_cons (.cause _) hp hq

theorem nodup_places (f : Failure ι) : f.places.Nodup := by
  refine (pairwise_places f).imp fun h heq => ?_
  subst heq
  exact List.lex_irrefl Hop.not_before_self _ h

theorem visitAt?_cons (hop : Hop) {f n : Failure ι} (h : f.hop? hop = some n) (depth : Nat)
    (relation : Relation) (hops : List Hop) : f.visitAt? depth relation (hop :: hops) =
      n.visitAt? (depth + Hop.depth [hop]) hop.relation hops := by
  have hdepth : Hop.depth (hop :: hops) = Hop.depth [hop] + Hop.depth hops := by
    rw [Hop.depth, ← List.singleton_append, List.countP_append]
    rfl
  rw [visitAt?, visitAt?, at?, h, Option.bind_some, hdepth, ← Nat.add_assoc, List.getLast?_cons,
    Option.map_some, Option.getD_some, Option.getD_map]

/-- A walk makes one visit at each place. -/
theorem map_some_visits (depth : Nat) (relation : Relation) (f : Failure ι) :
    (f.visits depth relation).map some = f.places.map (f.visitAt? depth relation) := by
  induction f generalizing depth relation with
  | node f ihSuppressed ihCause =>
    have hbeside : (f.suppressed.flatMap (visits (depth + 1) .suppressed)).map some =
        (f.suppressed.zipIdx.flatMap fun s => s.1.places.map (.suppressed s.2 :: ·)).map
          (f.visitAt? depth relation) := by
      rw [← List.zipIdx_map_fst 0 f.suppressed, List.flatMap_map, List.map_flatMap,
        List.map_flatMap, List.zipIdx_map_fst]
      refine List.flatMap_congr fun s hs => ?_
      rw [ihSuppressed s.1 (mem_of_mem_zipIdx hs), List.map_map]
      refine List.map_congr_left fun hops _ => ?_
      exact (visitAt?_cons (.suppressed s.2) (List.mem_zipIdx_iff_getElem?.1 hs) depth relation
        hops).symm
    have hbelow : (f.source?.toList.flatMap (visits depth .cause)).map some =
        (f.source?.toList.flatMap fun c => c.places.map (.cause :: ·)).map
          (f.visitAt? depth relation) := by
      cases hc : f.source? with
      | none => rfl
      | some c =>
        rw [Option.toList_some, List.flatMap_singleton, List.flatMap_singleton, List.map_map,
          ihCause c (source?_eq_some_iff.1 hc)]
        refine List.map_congr_left fun hops _ => ?_
        exact (visitAt?_cons .cause hc depth relation hops).symm
    rw [visits_eq_cons, places_eq_cons, List.map_cons, List.map_append, hbeside, hbelow,
      List.map_cons, List.map_append]
    rfl

end Failure
end Stacktrace
