import Mathlib.Data.Set.Function
import Stacktrace.Event
import Stacktrace.Proofs.AlikeRows
import Stacktrace.Proofs.WrittenRows

/-!
# Graphs with other identities

Identities are compared with each other and used for nothing else. So a graph may be given other
identities, as long as those that it uses, for its failures or as targets of its links, stay apart
from each other (`Set.InjOn`): it is written as the same rows and gives the same events, and a
search finds the same failure. It takes no more than that: failures may share an identity, and
links may lead nowhere.
-/

namespace Stacktrace
variable {ι κ : Type}

def BackRef.rename (ρ : ι → κ) (link : BackRef ι) : BackRef κ := ⟨ρ link.target, link.display⟩

namespace Failure

mutual

/-- The graph with all identities replaced, those of failures and the targets of links. -/
def rename (ρ : ι → κ) : Failure ι → Failure κ
  | ⟨id, typeName, message, frames, origin, suppressed, cause⟩ =>
    ⟨ρ id, typeName, message, frames, origin, renameIn ρ suppressed, renameCause ρ cause⟩

def renameCause (ρ : ι → κ) : Cause ι (Failure ι) → Cause κ (Failure κ)
  | .none => .none
  | .owned c => .owned (rename ρ c)
  | .backRef link => .backRef (link.rename ρ)

def renameIn (ρ : ι → κ) : List (Failure ι) → List (Failure κ)
  | [] => []
  | f :: fs => rename ρ f :: renameIn ρ fs

end

theorem renameIn_eq_map (ρ : ι → κ) (fs : List (Failure ι)) : renameIn ρ fs = fs.map (rename ρ) := by
  induction fs with
  | nil => rfl
  | cons f fs ih => rw [renameIn, ih, List.map_cons]

theorem rename_eq (ρ : ι → κ) (f : Failure ι) : f.rename ρ =
    ⟨ρ f.id, f.typeName, f.message, f.frames, f.origin, f.suppressed.map (rename ρ),
      renameCause ρ f.cause⟩ := by
  cases f
  rw [rename, renameIn_eq_map]

section Fields
variable (ρ : ι → κ) (f : Failure ι)

@[simp]
theorem rename_id : (f.rename ρ).id = ρ f.id := by
  rw [rename_eq]

@[simp]
theorem rename_typeName : (f.rename ρ).typeName = f.typeName := by
  rw [rename_eq]

@[simp]
theorem rename_message : (f.rename ρ).message = f.message := by
  rw [rename_eq]

@[simp]
theorem rename_frames : (f.rename ρ).frames = f.frames := by
  rw [rename_eq]

@[simp]
theorem rename_origin : (f.rename ρ).origin = f.origin := by
  rw [rename_eq]

@[simp]
theorem rename_suppressed : (f.rename ρ).suppressed = f.suppressed.map (rename ρ) := by
  rw [rename_eq]

@[simp]
theorem rename_cause : (f.rename ρ).cause = renameCause ρ f.cause := by
  rw [rename_eq]

theorem displayText_rename : (f.rename ρ).displayText = f.displayText := by
  rw [rename_eq]
  rfl

theorem link_rename : (f.rename ρ).link = f.link.rename ρ := by
  rw [link, rename_id, displayText_rename]
  rfl

theorem backRef?_renameCause (cause : Cause ι (Failure ι)) :
    (renameCause ρ cause).backRef? = cause.backRef?.map (·.rename ρ) := by
  cases cause <;> rfl

theorem source?_rename : (f.rename ρ).source? = f.source?.map (rename ρ) := by
  rw [source?, source?, rename_cause]
  cases f.cause <;> rfl

theorem visits_rename (depth : Nat) (relation : Relation) : (f.rename ρ).visits depth relation =
    (f.visits depth relation).map fun v => ⟨v.depth, v.relation, v.node.rename ρ⟩ :=
  visits_map (rename_suppressed ρ) (source?_rename ρ) depth relation f

theorem nodes_rename : (f.rename ρ).nodes = f.nodes.map (rename ρ) := by
  rw [nodes, walk, visits_rename, List.map_map, nodes, walk, List.map_map]
  rfl

theorem ids_rename : (f.rename ρ).ids = f.ids.map ρ := by
  rw [ids, nodes_rename, List.map_map, ids, List.map_map]
  exact List.map_congr_left fun n _ => rename_id ρ n

theorem alike_rename : f.alike (f.rename ρ) = true := by
  induction f with
  | node f ihSuppressed ihCause =>
    rw [alike_iff, rename_typeName, rename_message, rename_frames, rename_origin,
      rename_suppressed, rename_cause]
    refine ⟨rfl, rfl, rfl, rfl, alikeIn_map ihSuppressed, ?_⟩
    cases hc : f.cause with
    | none => rfl
    | owned c => exact ihCause c hc
    | backRef link => simp [renameCause, BackRef.rename, alikeCause]

end Fields

/-! ## The identities that a graph uses -/

/-- The identities of the failures of a graph and the targets of its links. -/
def names (f : Failure ι) : List ι :=
  f.nodes.flatMap fun n => n.id :: (n.cause.backRef?.map (·.target)).toList

/-- Whether a graph uses no identities but those in a set. -/
def NamesIn (K : Set ι) (f : Failure ι) : Prop :=
  ∀ n ∈ f.nodes, n.id ∈ K ∧ ∀ link ∈ n.cause.backRef?, link.target ∈ K

theorem namesIn_names (f : Failure ι) : f.NamesIn {i | i ∈ f.names} := by
  intro n hn
  refine ⟨List.mem_flatMap.2 ⟨n, hn, List.mem_cons_self⟩, ?_⟩
  intro link hlink
  refine List.mem_flatMap.2 ⟨n, hn, List.mem_cons_of_mem _ ?_⟩
  rw [Option.mem_toList, Option.mem_def.1 hlink]
  rfl

theorem id_mem_names_of_mem_ids {f : Failure ι} {i : ι} (h : i ∈ f.ids) : i ∈ f.names := by
  obtain ⟨n, hn, rfl⟩ := List.mem_map.1 h
  exact (f.namesIn_names n hn).1

section NamesIn
variable {K : Set ι} {f : Failure ι}

theorem namesIn_iff : f.NamesIn K ↔ f.id ∈ K ∧ (∀ link ∈ f.cause.backRef?, link.target ∈ K) ∧
    ∀ c ∈ f.children, c.NamesIn K := by
  rw [NamesIn, nodes_eq_cons, List.forall_mem_cons, and_assoc]
  refine and_congr_right fun _ => and_congr_right fun _ => ?_
  constructor
  · exact fun h c hc n hn => h n (List.mem_flatMap.2 ⟨c, hc, hn⟩)
  · intro h n hn
    obtain ⟨c, hc, hn⟩ := List.mem_flatMap.1 hn
    exact h c hc n hn

theorem NamesIn.id_mem (hf : f.NamesIn K) : f.id ∈ K := (namesIn_iff.1 hf).1

theorem NamesIn.target_mem (hf : f.NamesIn K) {link : BackRef ι} (hlink : f.cause = .backRef link) :
    link.target ∈ K := (namesIn_iff.1 hf).2.1 link (by rw [hlink]; rfl)

theorem NamesIn.of_mem_children (hf : f.NamesIn K) {c : Failure ι} (hc : c ∈ f.children) :
    c.NamesIn K := (namesIn_iff.1 hf).2.2 c hc

theorem NamesIn.of_mem_suppressed (hf : f.NamesIn K) {s : Failure ι} (hs : s ∈ f.suppressed) :
    s.NamesIn K := hf.of_mem_children (mem_children.2 (.inl hs))

theorem NamesIn.of_cause (hf : f.NamesIn K) {c : Failure ι} (hc : f.cause = .owned c) :
    c.NamesIn K := hf.of_mem_children (mem_children.2 (.inr hc))

end NamesIn

end Failure

/-! ## Writing -/

def Scope.rename (ρ : ι → κ) (scope : Scope ι) : Scope κ := scope.map fun e => (ρ e.1, e.2)

section Injective
variable [DecidableEq ι] [DecidableEq κ] {ρ : ι → κ} {K : Set ι} (hρ : Set.InjOn ρ K)
include hρ

theorem Scope.lookup_rename {scope : Scope ι} (hscope : ∀ e ∈ scope, e.1 ∈ K) {i : ι} (hi : i ∈ K) :
    (scope.rename ρ).lookup (ρ i) = scope.lookup i := by
  induction scope with
  | nil => rfl
  | cons e scope ih =>
    obtain ⟨he, hscope⟩ := List.forall_mem_cons.1 hscope
    have hsame : (ρ i == ρ e.1) = (i == e.1) := by
      rw [Bool.eq_iff_iff, beq_iff_eq, beq_iff_eq]
      exact hρ.eq_iff hi he
    rw [Scope.rename] at ih ⊢
    rw [List.map_cons, List.lookup_cons, List.lookup_cons, hsame, ih hscope]

namespace Failure

theorem circularRow_rename {scope : Scope ι} (hscope : ∀ e ∈ scope, e.1 ∈ K) (depth : Nat)
    {link : BackRef ι} (hlink : link.target ∈ K) :
    circularRow (scope.rename ρ) depth (link.rename ρ) = circularRow scope depth link := by
  rw [circularRow, circularRow, BackRef.rename, Scope.lookup_rename hρ hscope hlink]

theorem bodyRows_rename {scope : Scope ι} (hscope : ∀ e ∈ scope, e.1 ∈ K) (depth : Nat)
    {f : Failure ι} (hf : f.NamesIn K) :
    (f.rename ρ).bodyRows (scope.rename ρ) depth = f.bodyRows scope depth := by
  -- the scope grows on the way down, by failures whose identities are in `K` as well
  induction f generalizing scope depth with
  | node f ihSuppressed ihCause =>
    have hinside : ∀ e ∈ f.scopeEntry :: scope, e.1 ∈ K :=
      List.forall_mem_cons.2 ⟨hf.id_mem, hscope⟩
    have hentry : (f.rename ρ).scopeEntry :: scope.rename ρ =
        Scope.rename ρ (f.scopeEntry :: scope) := by
      rw [scopeEntry, rename_id, displayText_rename]
      rfl
    have hbeside (s : Failure ι) (hs : s ∈ f.suppressed) :
        suppressedRow depth (s.rename ρ) ::
            (s.rename ρ).bodyRows (Scope.rename ρ (f.scopeEntry :: scope)) (depth + 1) =
          suppressedRow depth s :: s.bodyRows (f.scopeEntry :: scope) (depth + 1) := by
      rw [ihSuppressed s hs hinside _ (hf.of_mem_suppressed hs), suppressedRow, displayText_rename,
        suppressedRow]
    have hbelow : causeRows (Scope.rename ρ (f.scopeEntry :: scope)) depth (renameCause ρ f.cause) =
        causeRows (f.scopeEntry :: scope) depth f.cause := by
      cases hc : f.cause with
      | none => rfl
      | owned c =>
        rw [renameCause, causeRows, causeRows, ihCause c hc hinside _ (hf.of_cause hc), causeRow,
          displayText_rename, causeRow]
      | backRef link =>
        rw [renameCause, causeRows, causeRows,
          circularRow_rename hρ hinside depth (hf.target_mem hc)]
    rw [bodyRows_eq, bodyRows_eq _ _ f, hentry, rename_frames, rename_suppressed, rename_cause,
      hbelow, List.flatMap_map, List.flatMap_congr hbeside]

theorem rows_rename {f : Failure ι} (hf : f.NamesIn K) : (f.rename ρ).rows = f.rows := by
  have hbody : (f.rename ρ).bodyRows (Scope.rename ρ []) 0 = f.bodyRows [] 0 :=
    bodyRows_rename hρ (by simp) 0 hf
  rw [rows, rows, displayText_rename, ← hbody]
  rfl

end Failure
end Injective

/-! ## Searching and tracing -/

namespace Failure

/-- A search for an identity that no other one is replaced by the same as finds the same failure. -/
theorem find?_rename [DecidableEq ι] [DecidableEq κ] {ρ : ι → κ} {i : ι} {f : Failure ι}
    (h : ∀ j ∈ f.ids, ρ j = ρ i → j = i) :
    (f.rename ρ).find? (ρ i) = (f.find? i).map (rename ρ) := by
  induction f with
  | node f ihSuppressed ihCause =>
    have hsame : ρ f.id = ρ i ↔ f.id = i := ⟨h f.id (id_mem_ids f), congrArg ρ⟩
    have hbelow (c : Failure ι) (hc : c ∈ f.children) (j : ι) (hj : j ∈ c.ids) :
        ρ j = ρ i → j = i := h j (ids_subset_of_mem_children hc hj)
    have hcause : (f.source?.map (rename ρ)).bind (find? (ρ i)) =
        (f.source?.bind (find? i)).map (rename ρ) := by
      cases hs : f.source? with
      | none => rfl
      | some c =>
        have hc := source?_eq_some_iff.1 hs
        exact ihCause c hc (hbelow c (mem_children.2 (.inr hc)))
    have hsuppressed : (f.suppressed.map (rename ρ)).findSome? (find? (ρ i)) =
        (f.suppressed.findSome? (find? i)).map (rename ρ) := by
      rw [List.findSome?_map, List.map_findSome?, ← List.head?_filterMap, ← List.head?_filterMap]
      refine congrArg _ (List.filterMap_congr fun s hs => ?_)
      exact ihSuppressed s hs (hbelow s (mem_children.2 (.inl hs)))
    rw [find?_eq, find?_eq i f, rename_id, source?_rename, rename_suppressed, hcause, hsuppressed]
    by_cases hid : f.id = i
    · rw [if_pos (hsame.2 hid), if_pos hid, Option.map_some]
    · rw [if_neg (mt hsame.1 hid), if_neg hid]
      cases f.source?.bind (find? i) <;> rfl

/-- A search finds the same failure if and only if the graph uses the identity that is searched for,
or no failure has the one that it is replaced by. -/
theorem find?_rename_iff [DecidableEq ι] [DecidableEq κ] {ρ : ι → κ} {f : Failure ι}
    (hρ : Set.InjOn ρ {i | i ∈ f.names}) {i : ι} :
    (f.rename ρ).find? (ρ i) = (f.find? i).map (rename ρ) ↔
      i ∈ f.names ∨ ρ i ∉ (f.rename ρ).ids := by
  constructor
  · intro h
    by_contra hnot
    obtain ⟨hunused, htaken⟩ : i ∉ f.names ∧ ρ i ∈ (f.rename ρ).ids := by
      rwa [not_or, not_not] at hnot
    have hsome := find?_isSome_of_mem_ids htaken
    rw [h, Option.isSome_map] at hsome
    obtain ⟨n, hn⟩ := Option.isSome_iff_exists.1 hsome
    obtain ⟨rfl, hmem⟩ := id_and_mem_of_find? hn
    exact hunused (id_mem_names_of_mem_ids (List.mem_map_of_mem hmem))
  · rintro (hused | hfree)
    · exact find?_rename fun j hj hsame => hρ (id_mem_names_of_mem_ids hj) hused hsame
    · refine find?_rename fun j hj hsame => ?_
      rw [ids_rename] at hfree
      exact absurd (List.mem_map.2 ⟨j, hj, hsame⟩) hfree

theorem events_rename (ρ : ι → κ) (level : Level) (options : TraceOptions) (v : Visit ι) :
    Visit.events level options ⟨v.depth, v.relation, v.node.rename ρ⟩ = v.events level options := by
  rw [Visit.events, Visit.events, rename_cause, backRef?_renameCause, Option.map_map, joinedFrames,
    joinedFrames, rename_typeName, rename_message, rename_frames]
  rfl

theorem trace_rename (ρ : ι → κ) (level : Level) (options : TraceOptions) (f : Failure ι) :
    (f.rename ρ).trace level options = f.trace level options := by
  rw [trace, trace, walk, walk, visits_rename, List.flatMap_map]
  exact List.flatMap_congr fun v _ => events_rename ρ level options v

end Failure
end Stacktrace
