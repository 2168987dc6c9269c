import Mathlib.Data.List.Nodup
import Mathlib.Data.List.Pairwise
import Stacktrace.Failure.Navigate
import Stacktrace.Failure.Walk
import Stacktrace.Trace.Printer

/-!
# Failures with the failures above them

A lineage is a visit of the walk together with the failures on the way down to it, and `lineages`
lists the lineages of a graph in the order of the walk. Statements about links are made for all
lineages of a graph; they are proved through `All`, which says the same by recursion and keeps of
the failures above only their identities and display texts. With pairwise distinct identities a
search by identity gives back the failure that the walk visits (`find?_of_mem_nodes`).
-/

namespace Stacktrace
variable {ι : Type}

/-- A visit and the failures above it, innermost first. -/
structure Lineage (ι : Type) extends Visit ι where
  above : List (Failure ι)

def Lineage.path (p : Lineage ι) : List (Failure ι) := p.node :: p.above

namespace Failure

theorem source?_eq_some_iff {f c : Failure ι} : f.source? = some c ↔ f.cause = .owned c := by
  cases h : f.cause <;> simp [source?, h, Cause.owned?]

theorem mem_toList_source? {f c : Failure ι} : c ∈ f.source?.toList ↔ f.cause = .owned c := by
  rw [Option.mem_toList, source?_eq_some_iff]

mutual

/-- The lineages of a failure that stands below others, and of all that hangs off it. -/
def lineagesFrom (above : List (Failure ι)) (depth : Nat) (relation : Relation) :
    Failure ι → List (Lineage ι)
  | f@⟨_, _, _, _, _, suppressed, cause⟩ =>
    ⟨⟨depth, relation, f⟩, above⟩ ::
      (lineagesIn (f :: above) (depth + 1) suppressed ++ causeLineages (f :: above) depth cause)

def causeLineages (above : List (Failure ι)) (depth : Nat) :
    Cause ι (Failure ι) → List (Lineage ι)
  | .owned c => lineagesFrom above depth .cause c
  | _ => []

def lineagesIn (above : List (Failure ι)) (depth : Nat) : List (Failure ι) → List (Lineage ι)
  | [] => []
  | f :: fs => lineagesFrom above depth .suppressed f ++ lineagesIn above depth fs

end

def lineages (f : Failure ι) : List (Lineage ι) := f.lineagesFrom [] 0 .root

theorem mem_lineagesIn {above : List (Failure ι)} {depth : Nat} {fs : List (Failure ι)}
    {p : Lineage ι} :
    p ∈ lineagesIn above depth fs ↔ ∃ s ∈ fs, p ∈ s.lineagesFrom above depth .suppressed := by
  induction fs with
  | nil => simp [lineagesIn]
  | cons f fs ih => simp [lineagesIn, ih]

theorem mem_causeLineages {above : List (Failure ι)} {depth : Nat} {cause : Cause ι (Failure ι)}
    {p : Lineage ι} :
    p ∈ causeLineages above depth cause ↔
      ∃ c, cause = .owned c ∧ p ∈ c.lineagesFrom above depth .cause := by
  cases cause <;> simp [causeLineages]

theorem mem_lineagesFrom {above : List (Failure ι)} {depth : Nat} {relation : Relation}
    {f : Failure ι} {p : Lineage ι} :
    p ∈ f.lineagesFrom above depth relation ↔ p = ⟨⟨depth, relation, f⟩, above⟩ ∨
      (∃ s ∈ f.suppressed, p ∈ s.lineagesFrom (f :: above) (depth + 1) .suppressed) ∨
      (∃ c, f.cause = .owned c ∧ p ∈ c.lineagesFrom (f :: above) depth .cause) := by
  cases f with
  | mk id typeName message frames origin suppressed cause =>
    rw [lineagesFrom, List.mem_cons, List.mem_append, mem_lineagesIn, mem_causeLineages]

/-! ## The failures of a graph -/

/-- The failures that hang off a failure: those suppressed beside it and then its owned cause. -/
def children (f : Failure ι) : List (Failure ι) := f.suppressed ++ f.source?.toList

theorem mem_children {f c : Failure ι} :
    c ∈ f.children ↔ c ∈ f.suppressed ∨ f.cause = .owned c := by
  rw [children, List.mem_append, mem_toList_source?]

theorem induct_children {motive : Failure ι → Prop}
    (node : ∀ f : Failure ι, (∀ c ∈ f.children, motive c) → motive f) (f : Failure ι) : motive f := by
  induction f with
  | node f ihSuppressed ihCause =>
    refine node f ?_
    intro c hc
    rcases mem_children.1 hc with hs | hc
    · exact ihSuppressed c hs
    · exact ihCause c hc

def nodes (f : Failure ι) : List (Failure ι) := f.walk.map (·.node)

def ids (f : Failure ι) : List ι := f.nodes.map id

theorem causeVisits_eq_flatMap (depth : Nat) (f : Failure ι) :
    causeVisits depth f.cause = f.source?.toList.flatMap (visits depth .cause) := by
  cases h : f.cause <;> simp [causeVisits, source?, h, Cause.owned?]

theorem visits_eq_cons (depth : Nat) (relation : Relation) (f : Failure ι) :
    f.visits depth relation = ⟨depth, relation, f⟩ ::
      (f.suppressed.flatMap (visits (depth + 1) .suppressed) ++
        f.source?.toList.flatMap (visits depth .cause)) := by
  rw [← causeVisits_eq_flatMap, ← visitsIn_eq_flatMap]
  cases f
  rw [visits]

theorem visits_map {κ : Type} {φ : Failure ι → Failure κ}
    (hsuppressed : ∀ f, (φ f).suppressed = f.suppressed.map φ)
    (hsource : ∀ f, (φ f).source? = f.source?.map φ) (depth : Nat) (relation : Relation)
    (f : Failure ι) : (φ f).visits depth relation =
      (f.visits depth relation).map fun v => ⟨v.depth, v.relation, φ v.node⟩ := by
  induction f generalizing depth relation with
  | node f ihSuppressed ihCause =>
    rw [visits_eq_cons, visits_eq_cons, hsuppressed, hsource]
    simp only [List.map_cons, List.map_append, List.map_flatMap, List.flatMap_map]
    congr 2
    · exact List.flatMap_congr fun s hs => ihSuppressed s hs _ _
    · cases hc : f.source? with
      | none => rfl
      | some c => simpa using ihCause c (source?_eq_some_iff.1 hc) _ _

theorem visits_map_node (depth : Nat) (relation : Relation) (f : Failure ι) :
    (f.visits depth relation).map (·.node) = f.nodes := by
  -- stated for any two depths, as those below a failure are not those of its walk
  suffices general : ∀ depth' relation', (f.visits depth relation).map (·.node) =
      (f.visits depth' relation').map (·.node) from general 0 .root
  induction f generalizing depth relation with
  | node f ihSuppressed ihCause =>
    intro depth' relation'
    rw [visits_eq_cons, visits_eq_cons depth']
    simp only [List.map_cons, List.map_append, List.map_flatMap]
    congr 2
    · exact List.flatMap_congr fun s hs => ihSuppressed s hs _ _ _ _
    · exact List.flatMap_congr fun c hc => ihCause c (mem_toList_source?.1 hc) _ _ _ _

theorem nodes_eq_cons (f : Failure ι) : f.nodes = f :: f.children.flatMap nodes := by
  rw [nodes, walk, visits_eq_cons, children, List.flatMap_append]
  simp only [List.map_cons, List.map_append, List.map_flatMap, visits_map_node]

theorem nodes_map {κ : Type} {φ : Failure ι → Failure κ}
    (h : ∀ f, (φ f).children = f.children.map φ) (f : Failure ι) :
    (φ f).nodes = f.nodes.map φ := by
  induction f using induct_children with
  | node f ih =>
    rw [nodes_eq_cons, nodes_eq_cons, h, List.flatMap_map, List.map_cons, List.map_flatMap]
    congr 1
    exact List.flatMap_congr ih

theorem ids_eq_cons (f : Failure ι) : f.ids = f.id :: f.children.flatMap ids := by
  rw [ids, nodes_eq_cons, List.map_cons, List.map_flatMap]
  rfl

theorem mem_nodes {f n : Failure ι} : n ∈ f.nodes ↔ n = f ∨ ∃ c ∈ f.children, n ∈ c.nodes := by
  rw [nodes_eq_cons, List.mem_cons, List.mem_flatMap]

theorem mem_ids {f : Failure ι} {i : ι} : i ∈ f.ids ↔ i = f.id ∨ ∃ c ∈ f.children, i ∈ c.ids := by
  rw [ids_eq_cons, List.mem_cons, List.mem_flatMap]

theorem self_mem_nodes (f : Failure ι) : f ∈ f.nodes := mem_nodes.2 (.inl rfl)

theorem id_mem_ids (f : Failure ι) : f.id ∈ f.ids := mem_ids.2 (.inl rfl)

theorem nodes_subset_of_mem_children {f c : Failure ι} (hc : c ∈ f.children) :
    c.nodes ⊆ f.nodes := fun _ hn => mem_nodes.2 (.inr ⟨c, hc, hn⟩)

theorem ids_subset_of_mem_children {f c : Failure ι} (hc : c ∈ f.children) : c.ids ⊆ f.ids :=
  fun _ hi => mem_ids.2 (.inr ⟨c, hc, hi⟩)

theorem ids_subset_of_mem_nodes {f n : Failure ι} (hn : n ∈ f.nodes) : n.ids ⊆ f.ids := by
  induction f using induct_children with
  | node f ih =>
    rcases mem_nodes.1 hn with rfl | ⟨c, hc, hn⟩
    · exact List.Subset.refl _
    · exact List.Subset.trans (ih c hc hn) (ids_subset_of_mem_children hc)

theorem id_not_mem_ids_of_mem_children {f c : Failure ι} (hf : f.ids.Nodup) (hc : c ∈ f.children) :
    f.id ∉ c.ids := by
  rw [ids_eq_cons, List.nodup_cons] at hf
  exact fun h => hf.1 (List.mem_flatMap.2 ⟨c, hc, h⟩)

theorem ids_nodup_of_mem_children {f c : Failure ι} (hf : f.ids.Nodup) (hc : c ∈ f.children) :
    c.ids.Nodup := by
  rw [ids_eq_cons, List.nodup_cons, List.nodup_flatMap] at hf
  exact hf.2.1 c hc

theorem eq_of_mem_ids_of_mem_ids {f c d : Failure ι} {i : ι} (hf : f.ids.Nodup)
    (hc : c ∈ f.children) (hd : d ∈ f.children) (hi : i ∈ c.ids) (hi' : i ∈ d.ids) : c = d := by
  rw [ids_eq_cons, List.nodup_cons, List.nodup_flatMap] at hf
  have hsymm : Std.Symm (Function.onFun List.Disjoint fun n : Failure ι => n.ids) :=
    ⟨fun _ _ h => List.disjoint_symm h⟩
  by_contra hne
  exact hf.2.2.forall hc hd hne hi hi'

theorem causeChain_eq_cons (f : Failure ι) :
    f.causeChain = f :: f.source?.toList.flatMap causeChain := by
  cases f with
  | mk id typeName message frames origin suppressed cause =>
    cases cause <;> simp [causeChain, source?, Cause.owned?]

theorem mem_nodes_of_mem_causeChain {f n : Failure ι} (h : n ∈ f.causeChain) : n ∈ f.nodes := by
  induction f with
  | node f _ ihCause =>
    rw [causeChain_eq_cons, List.mem_cons, List.mem_flatMap] at h
    rcases h with rfl | ⟨c, hc, hn⟩
    · exact self_mem_nodes n
    · have hcause := mem_toList_source?.1 hc
      exact nodes_subset_of_mem_children (mem_children.2 (.inr hcause)) (ihCause c hcause hn)

theorem mem_of_mem_path {above : List (Failure ι)} {depth : Nat} {relation : Relation}
    {f a : Failure ι} {p : Lineage ι} (hp : p ∈ f.lineagesFrom above depth relation)
    (ha : a ∈ p.path) : a ∈ f.nodes ∨ a ∈ above := by
  induction f generalizing above depth relation with
  | node f ihSuppressed ihCause =>
    rw [mem_nodes]
    rcases mem_lineagesFrom.1 hp with rfl | ⟨s, hs, hp⟩ | ⟨c, hc, hp⟩
    · exact (List.mem_cons.1 ha).imp Or.inl fun h => h
    · rcases ihSuppressed s hs hp with h | h
      · exact .inl (.inr ⟨s, mem_children.2 (.inl hs), h⟩)
      · exact (List.mem_cons.1 h).imp Or.inl fun h => h
    · rcases ihCause c hc hp with h | h
      · exact .inl (.inr ⟨c, mem_children.2 (.inr hc), h⟩)
      · exact (List.mem_cons.1 h).imp Or.inl fun h => h

theorem mem_nodes_of_mem_path {f a : Failure ι} {p : Lineage ι} (hp : p ∈ f.lineages)
    (ha : a ∈ p.path) : a ∈ f.nodes := by
  simpa using mem_of_mem_path hp ha

/-! ## Lineages and visits -/

theorem mem_visits {depth : Nat} {relation : Relation} {f : Failure ι} {v : Visit ι} :
    v ∈ f.visits depth relation ↔ v = ⟨depth, relation, f⟩ ∨
      (∃ s ∈ f.suppressed, v ∈ s.visits (depth + 1) .suppressed) ∨
      (∃ c, f.cause = .owned c ∧ v ∈ c.visits depth .cause) := by
  rw [visits_eq_cons, List.mem_cons, List.mem_append, List.mem_flatMap, List.mem_flatMap]
  simp only [mem_toList_source?]

theorem mem_visits_iff_exists_lineage (above : List (Failure ι)) {depth : Nat}
    {relation : Relation} {f : Failure ι} {v : Visit ι} :
    v ∈ f.visits depth relation ↔ ∃ p ∈ f.lineagesFrom above depth relation, p.toVisit = v := by
  induction f generalizing above depth relation with
  | node f ihSuppressed ihCause =>
    rw [mem_visits]
    constructor
    · rintro (rfl | ⟨s, hs, hv⟩ | ⟨c, hc, hv⟩)
      · exact ⟨_, mem_lineagesFrom.2 (.inl rfl), rfl⟩
      · obtain ⟨p, hp, hvisit⟩ := (ihSuppressed s hs (f :: above)).1 hv
        exact ⟨p, mem_lineagesFrom.2 (.inr (.inl ⟨s, hs, hp⟩)), hvisit⟩
      · obtain ⟨p, hp, hvisit⟩ := (ihCause c hc (f :: above)).1 hv
        exact ⟨p, mem_lineagesFrom.2 (.inr (.inr ⟨c, hc, hp⟩)), hvisit⟩
    · rintro ⟨p, hp, hvisit⟩
      rcases mem_lineagesFrom.1 hp with rfl | ⟨s, hs, hp⟩ | ⟨c, hc, hp⟩
      · exact .inl hvisit.symm
      · exact .inr (.inl ⟨s, hs, (ihSuppressed s hs (f :: above)).2 ⟨p, hp, hvisit⟩⟩)
      · exact .inr (.inr ⟨c, hc, (ihCause c hc (f :: above)).2 ⟨p, hp, hvisit⟩⟩)

theorem mem_walk_iff_exists_lineage {f : Failure ι} {v : Visit ι} :
    v ∈ f.walk ↔ ∃ p ∈ f.lineages, p.toVisit = v :=
  mem_visits_iff_exists_lineage []

/-! ## A property of every failure -/

section All
variable {α : Type} {entry : Failure ι → α} {P : Nat → List α → Failure ι → Prop}

/-- A property of the depth of a failure, of what `entry` keeps of the failures above it and of the
failure itself that holds for a failure and for all that hangs off it. -/
inductive All (entry : Failure ι → α) (P : Nat → List α → Failure ι → Prop) :
    Nat → List α → Failure ι → Prop
  | node {depth : Nat} {above : List α} {f : Failure ι} (here : P depth above f)
      (suppressed : ∀ s ∈ f.suppressed, All entry P (depth + 1) (entry f :: above) s)
      (cause : ∀ c, f.cause = .owned c → All entry P depth (entry f :: above) c) :
      All entry P depth above f

theorem all_iff {depth : Nat} {above : List α} {f : Failure ι} :
    All entry P depth above f ↔ P depth above f ∧
      (∀ s ∈ f.suppressed, All entry P (depth + 1) (entry f :: above) s) ∧
      ∀ c, f.cause = .owned c → All entry P depth (entry f :: above) c := by
  constructor
  · intro h
    cases h with
    | node here suppressed cause => exact ⟨here, suppressed, cause⟩
  · exact fun h => .node h.1 h.2.1 h.2.2

/-- A property that only links can fail holds for a failure that has nothing hanging off it. -/
theorem all_of_bare {P : List α → Failure ι → Prop} {depth : Nat} {above : List α} {f : Failure ι}
    (hP : ∀ n, n.cause.backRef? = none → P above n) (hcause : f.cause = .none)
    (hsuppressed : f.suppressed = []) : All entry (fun _ => P) depth above f :=
  all_iff.2 ⟨hP f (by rw [hcause]; rfl), by simp [hsuppressed], by simp [hcause]⟩

theorem all_iff_forall_mem_lineagesFrom (above : List (Failure ι)) (depth : Nat)
    (relation : Relation) (f : Failure ι) : All entry P depth (above.map entry) f ↔
      ∀ p ∈ f.lineagesFrom above depth relation, P p.depth (p.above.map entry) p.node := by
  induction f generalizing above depth relation with
  | node f ihSuppressed ihCause =>
    rw [all_iff]
    constructor
    · intro h p hp
      rcases mem_lineagesFrom.1 hp with rfl | ⟨s, hs, hp⟩ | ⟨c, hc, hp⟩
      · exact h.1
      · exact (ihSuppressed s hs (f :: above) _ _).1 (h.2.1 s hs) p hp
      · exact (ihCause c hc (f :: above) _ _).1 (h.2.2 c hc) p hp
    · intro h
      refine ⟨h _ (mem_lineagesFrom.2 (.inl rfl)), ?_, ?_⟩
      · intro s hs
        refine (ihSuppressed s hs (f :: above) _ .suppressed).2 fun p hp => ?_
        exact h p (mem_lineagesFrom.2 (.inr (.inl ⟨s, hs, hp⟩)))
      · intro c hc
        refine (ihCause c hc (f :: above) _ .cause).2 fun p hp => ?_
        exact h p (mem_lineagesFrom.2 (.inr (.inr ⟨c, hc, hp⟩)))

theorem all_iff_forall_mem_lineages {f : Failure ι} : All entry P 0 [] f ↔
    ∀ p ∈ f.lineages, P p.depth (p.above.map entry) p.node :=
  all_iff_forall_mem_lineagesFrom [] 0 .root f

end All

/-! ## Links -/

/-- Whether the link of a failure, if it has one, leads to the failure or to one above it. -/
def LinksUpward (above : List ι) (f : Failure ι) : Prop :=
  ∀ link ∈ f.cause.backRef?, link.target ∈ f.id :: above

abbrev AllLinksUpward (depth : Nat) (above : List ι) (f : Failure ι) : Prop :=
  All Failure.id (fun _ => LinksUpward) depth above f

/-- Whether every link of a graph leads to its holder or to a failure above it. -/
def Anchored (f : Failure ι) : Prop :=
  ∀ p ∈ f.lineages, ∀ link ∈ p.node.cause.backRef?, link.target ∈ p.path.map Failure.id

theorem anchored_iff {f : Failure ι} : f.Anchored ↔ AllLinksUpward 0 [] f := by
  rw [AllLinksUpward, all_iff_forall_mem_lineages]
  rfl

instance [DecidableEq ι] (f : Failure ι) : Decidable f.Anchored :=
  inferInstanceAs (Decidable (∀ p ∈ f.lineages, ∀ link ∈ p.node.cause.backRef?,
    link.target ∈ p.path.map Failure.id))

/-! ## Searching by identity -/

section Find
variable [DecidableEq ι]

theorem find?_eq (i : ι) (f : Failure ι) : f.find? i = if f.id = i then some f else
    f.source?.bind (find? i) <|> f.suppressed.findSome? (find? i) := by
  cases f with
  | mk id typeName message frames origin suppressed cause =>
    rw [find?, findIn?_eq_findSome?]
    cases cause <;> rfl

theorem id_and_mem_of_find? {i : ι} {f n : Failure ι} (h : f.find? i = some n) :
    n.id = i ∧ n ∈ f.nodes := by
  induction f with
  | node f ihSuppressed ihCause =>
    rw [find?_eq] at h
    split at h
    · next hid =>
      obtain rfl := Option.some.inj h
      exact ⟨hid, self_mem_nodes f⟩
    · rw [Option.orElse_eq_orElse, Option.orElse_eq_or, Option.or_eq_some_iff] at h
      rcases h with h | ⟨-, h⟩
      · obtain ⟨c, hc, h⟩ := Option.bind_eq_some_iff.1 h
        have hcause := source?_eq_some_iff.1 hc
        have hn := ihCause c hcause h
        exact ⟨hn.1, nodes_subset_of_mem_children (mem_children.2 (.inr hcause)) hn.2⟩
      · obtain ⟨s, hs, h⟩ := List.exists_of_findSome?_eq_some h
        have hn := ihSuppressed s hs h
        exact ⟨hn.1, nodes_subset_of_mem_children (mem_children.2 (.inl hs)) hn.2⟩

theorem find?_isSome_of_mem_ids {i : ι} {f : Failure ι} (h : i ∈ f.ids) :
    (f.find? i).isSome = true := by
  induction f with
  | node f ihSuppressed ihCause =>
    rw [find?_eq]
    split
    · rfl
    · next hid =>
      rw [Option.orElse_eq_orElse, Option.orElse_eq_or, Option.isSome_or, Bool.or_eq_true]
      rcases mem_ids.1 h with h | ⟨c, hc, h⟩
      · exact absurd h.symm hid
      · rcases mem_children.1 hc with hs | hc
        · refine .inr ?_
          rw [List.findSome?_isSome_iff]
          exact ⟨c, hs, ihSuppressed c hs h⟩
        · refine .inl ?_
          rw [source?_eq_some_iff.2 hc]
          exact ihCause c hc h

theorem find?_of_mem_nodes {f n : Failure ι} (hf : f.ids.Nodup) (hn : n ∈ f.nodes) :
    f.find? n.id = some n := by
  have hsome := find?_isSome_of_mem_ids (List.mem_map_of_mem hn : n.id ∈ f.ids)
  obtain ⟨m, hm⟩ := Option.isSome_iff_exists.1 hsome
  obtain ⟨hid, hmem⟩ := id_and_mem_of_find? hm
  rw [hm, List.inj_on_of_nodup_map hf hmem hn hid]

end Find

end Failure
end Stacktrace
