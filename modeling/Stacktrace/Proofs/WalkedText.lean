import Stacktrace.Proofs.MarkRows
import Stacktrace.Proofs.Places
import Stacktrace.Proofs.WrittenRows

/-!
# The text in the order of the walk

Each visit of a walk has rows of its own: the header of the failure behind its tabs and the token
for its relation, then the frames, one tab deeper. Circular references apart, the rows of a graph
are those of its visits one after the other (`encode_eq_flatMap_visits`), so the walk goes through
the failures in the order in which they are written.
-/

namespace Stacktrace
variable {ι : Type}

def Relation.token : Relation → Text
  | .root => []
  | .cause => Mark.causedByToken
  | .suppressed => Mark.suppressedToken

namespace Visit

def headerRow (v : Visit ι) : Text := Mark.indent v.depth ++ v.relation.token ++ v.node.displayText

def frameRows (v : Visit ι) : List Text :=
  v.node.frames.map fun f => Mark.indent (v.depth + 1) ++ Mark.atToken ++ f.render

def rows (v : Visit ι) : List Text := v.headerRow :: v.frameRows

theorem headerRow_cause (depth : Nat) (f : Failure ι) :
    headerRow ⟨depth, .cause, f⟩ = Failure.causeRow depth f := rfl

theorem headerRow_suppressed (depth : Nat) (f : Failure ι) :
    headerRow ⟨depth + 1, .suppressed, f⟩ = Failure.suppressedRow depth f := by
  rw [headerRow, List.append_assoc, Mark.indent_succ_append]
  rfl

theorem frameRows_eq_map (depth : Nat) (relation : Relation) (f : Failure ι) :
    frameRows ⟨depth, relation, f⟩ = f.frames.map (Failure.frameRow depth) := by
  refine List.map_congr_left fun frame _ => ?_
  rw [List.append_assoc, Mark.indent_succ_append]
  rfl

end Visit

namespace Failure

/-- Whether no failure of a graph has a link for a cause. -/
def Unlinked (f : Failure ι) : Prop := ∀ n ∈ f.nodes, n.cause.backRef? = none

instance [DecidableEq ι] (f : Failure ι) : Decidable f.Unlinked :=
  inferInstanceAs (Decidable (∀ n ∈ f.nodes, n.cause.backRef? = none))

theorem Unlinked.of_mem_children {f c : Failure ι} (h : f.Unlinked) (hc : c ∈ f.children) :
    c.Unlinked := fun n hn => h n (nodes_subset_of_mem_children hc hn)

/-- What is written for a failure and all that hangs off it is what is written for the visits. -/
theorem flatMap_rows_visits [DecidableEq ι] {f : Failure ι} (h : f.Unlinked) (scope : Scope ι)
    (depth : Nat) (relation : Relation) : (f.visits depth relation).flatMap Visit.rows =
      Visit.headerRow ⟨depth, relation, f⟩ :: f.bodyRows scope depth := by
  induction f generalizing scope depth relation with
  | node f ihSuppressed ihCause =>
    have hbeside : (f.suppressed.flatMap (visits (depth + 1) .suppressed)).flatMap Visit.rows =
        f.suppressed.flatMap fun s =>
          suppressedRow depth s :: s.bodyRows (f.scopeEntry :: scope) (depth + 1) := by
      rw [List.flatMap_assoc]
      refine List.flatMap_congr fun s hs => ?_
      rw [ihSuppressed s hs (h.of_mem_children (mem_children.2 (.inl hs))),
        Visit.headerRow_suppressed]
    have hbelow : (f.source?.toList.flatMap (visits depth .cause)).flatMap Visit.rows =
        causeRows (f.scopeEntry :: scope) depth f.cause := by
      rw [source?]
      cases hc : f.cause with
      | none => rfl
      | owned c =>
        have hbelow := ihCause c hc (h.of_mem_children (mem_children.2 (.inr hc)))
          (f.scopeEntry :: scope) depth .cause
        rw [Visit.headerRow_cause] at hbelow
        rw [causeRows, ← hbelow]
        exact congrArg (List.flatMap Visit.rows) (List.flatMap_singleton _ _)
      | backRef link => simpa [hc, Cause.backRef?] using h f (self_mem_nodes f)
    rw [visits_eq_cons, List.flatMap_cons, List.flatMap_append, hbeside, hbelow, bodyRows_eq,
      Visit.rows, Visit.frameRows_eq_map]
    simp only [List.cons_append, List.append_assoc]

end Failure

/-- The text of a graph without links is that of the visits of its walk, one after the other. The
walk visits each failure once, a failure before all that is suppressed beside it and that before the
cause, at a depth which is the number of suppressed edges on the way to the failure. -/
theorem encode_eq_flatMap_visits [DecidableEq ι] (codec : Codec) (g : Failure ι) :
    (g.Unlinked → codec.encode g =
      (Walker.start g).visits.flatMap fun v => Text.ofRows codec.config.terminator v.rows) ∧
    (Walker.start g).visits.map some = g.places.map (g.visitAt? 0 .root) ∧
    (∀ hops, hops ∈ g.places ↔ (g.at? hops).isSome) ∧ g.places.Nodup ∧
    g.places.Pairwise (List.Lex Hop.Before) := by
  rw [Walker.visits_start]
  refine ⟨fun h => ?_, g.map_some_visits 0 .root, fun _ => Failure.mem_places,
    g.nodup_places, g.pairwise_places⟩
  have hrows : g.rows = g.walk.flatMap Visit.rows :=
    (Failure.flatMap_rows_visits h [] 0 .root).symm
  rw [Codec.encode, Failure.print_eq_ofRows, hrows]
  exact List.flatMap_assoc

/-- Failures suppressed beside the root, one with a cause and one with another failure beside it. -/
def branching : Failure Nat :=
  let first := { Failure.ofType 1 "S1".toList with cause := .owned (.ofType 2 "S1C".toList) }
  let second := { Failure.ofType 3 "S2".toList with suppressed := [.ofType 4 "S2S".toList] }
  { Failure.ofType 0 ['A'] with
    message := some ['m']
    frames := [⟨['a'], ['b'], none, .native⟩]
    suppressed := [first, second]
    cause := .owned (.ofType 5 ['B']) }

theorem encode_branching : branching.Unlinked ∧
    Codec.encode ⟨⟨['\r', '\n'], []⟩, .any⟩ branching =
      Text.ofRows ['\r', '\n'] ["A: m".toList, "\tat a.b(Native Method)".toList,
        "\tSuppressed: S1".toList, "\tCaused by: S1C".toList, "\tSuppressed: S2".toList,
        "\t\tSuppressed: S2S".toList, "Caused by: B".toList] := by
  have hunlinked : branching.Unlinked := by decide
  refine ⟨hunlinked, ((encode_eq_flatMap_visits _ branching).1 hunlinked).trans ?_⟩
  rw [Walker.visits_start]
  rfl

end Stacktrace
