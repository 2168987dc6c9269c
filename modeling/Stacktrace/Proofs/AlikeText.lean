import Stacktrace.Proofs.Outlines
import Stacktrace.Proofs.WrittenRows

/-!
# The text of graphs that are alike

To be alike is an equivalence, and graphs that are alike are walked in the same way. They are also
written as the same text, as long as none of their links is stale (`alike_congruence`): a link is
written with the display text of the innermost failure on the way down to it that it could lead to,
and where that is not the text which the link keeps, it depends on identities.
-/

namespace Stacktrace
variable {ι κ : Type}

/-- What the walk shows of a failure apart from all that hangs off it. -/
def Visit.outward (v : Visit ι) : Nat × Relation × Text × List Frame :=
  (v.depth, v.relation, v.node.displayText, v.node.frames)

def Outline.outward (o : Outline) : Nat × Relation × Text × List Frame :=
  let shown := { Failure.ofType () o.typeName with message := o.message, origin := o.origin }
  (o.depth, o.relation, shown.displayText, o.frames)

namespace Failure
variable [DecidableEq ι] [DecidableEq κ]

/-- Whether every link with a target on the way down to its holder shows the display text of the
innermost failure there that has the identity of the target. -/
def Fresh (f : Failure ι) : Prop :=
  ∀ p ∈ f.lineages, ∀ link ∈ p.node.cause.backRef?,
    ∀ target ∈ p.path.find? (·.id = link.target), target.displayText = link.display

instance (f : Failure ι) : Decidable f.Fresh :=
  inferInstanceAs (Decidable (∀ p ∈ f.lineages, ∀ link ∈ p.node.cause.backRef?,
    ∀ target ∈ p.path.find? (·.id = link.target), target.displayText = link.display))

theorem lookup_map_scopeEntry (i : ι) (fs : List (Failure ι)) :
    (fs.map scopeEntry).lookup i = (fs.find? (·.id = i)).map displayText := by
  induction fs with
  | nil => rfl
  | cons f fs ih =>
    rw [List.map_cons, scopeEntry, List.lookup_cons, List.find?_cons, ih]
    by_cases h : f.id = i
    · rw [h, beq_self_eq_true, decide_eq_true rfl]
      rfl
    · rw [beq_false_of_ne (Ne.symm h), decide_eq_false h]

theorem Fresh.allLinksCurrent {f : Failure ι} (h : f.Fresh) : f.AllLinksCurrent 0 [] := by
  refine all_iff_forall_mem_lineages.2 fun p hp link hlink => ?_
  have hpath : p.node.scopeEntry :: p.above.map scopeEntry = p.path.map scopeEntry := rfl
  rw [hpath, lookup_map_scopeEntry]
  cases htarget : p.path.find? (·.id = link.target) with
  | none => rfl
  | some target => exact h p hp link hlink target htarget

end Failure

/-- To be alike is an equivalence. Graphs that are alike show the same in every visit of their
walks, and are written as the same text if none of their links is stale. -/
theorem alike_congruence [DecidableEq ι] [DecidableEq κ] :
    Equivalence (fun f g : Failure ι => f.alike g = true) ∧
      ∀ (a : Failure ι) (b : Failure κ), a.alike b = true →
        (Walker.start a).visits.map Visit.outward = (Walker.start b).visits.map Visit.outward ∧
          (a.Fresh → b.Fresh → ∀ codec : Codec, codec.encode a = codec.encode b) := by
  refine ⟨⟨Failure.alike_refl, Failure.alike_symm, Failure.alike_trans⟩, fun a b h => ⟨?_, ?_⟩⟩
  · have houtlines := congrArg (List.map Outline.outward)
      (Failure.outlines_eq_of_alike h 0 .root)
    rw [Failure.outlines, Failure.outlines, List.map_map, List.map_map] at houtlines
    rw [Walker.visits_start, Walker.visits_start]
    exact houtlines
  · intro ha hb codec
    rw [Codec.encode, Codec.encode, Failure.print_eq_ofRows, Failure.print_eq_ofRows,
      Failure.rows_eq_of_alike h ha.allLinksCurrent hb.allLinksCurrent]

/-! Two failures with one identity, a link that leads nowhere, and one that leads to the innermost
of two failures with its target for an identity. -/

def ringed : Failure Nat :=
  let clone := { Failure.ofType 3 ['S'] with cause := .backRef ⟨9, ['X']⟩ }
  let inner := { Failure.ofType 5 ['C'] with cause := .backRef ⟨4, ['W']⟩ }
  let outer := { Failure.ofType 4 ['W'] with cause := .owned inner }
  { Failure.ofType 3 ['A'] with suppressed := [clone], cause := .owned outer }

def ringedToo : Failure Bool :=
  let clone := { Failure.ofType true ['S'] with cause := .backRef ⟨false, ['X']⟩ }
  let inner := { Failure.ofType false ['C'] with cause := .backRef ⟨true, ['W']⟩ }
  let outer := { Failure.ofType true ['W'] with cause := .owned inner }
  { Failure.ofType true ['A'] with suppressed := [clone], cause := .owned outer }

theorem encode_ringed : ringed.alike ringedToo = true ∧ ringed.Fresh ∧ ringedToo.Fresh ∧
    (∀ codec : Codec, codec.encode ringed = codec.encode ringedToo) ∧
      (Walker.start ringed).visits.map Visit.outward =
        (Walker.start ringedToo).visits.map Visit.outward := by
  have halike : ringed.alike ringedToo = true := by decide
  have hfresh : ringed.Fresh := by decide
  have hfresh' : ringedToo.Fresh := by decide
  obtain ⟨hvisits, htext⟩ := alike_congruence.2 ringed ringedToo halike
  exact ⟨halike, hfresh, hfresh', htext hfresh hfresh', hvisits⟩

/-! A link to its holder that is stale is not written as it is kept, but one that leads nowhere
is. -/

example :
    let stale : Failure Nat := { Failure.ofType 0 ['A'] with cause := .backRef ⟨0, ['B']⟩ }
    let leading : Failure Nat := { Failure.ofType 0 ['A'] with cause := .backRef ⟨1, ['B']⟩ }
    stale.alike leading = true ∧ ¬ stale.Fresh ∧ leading.Fresh ∧
      Codec.encode {} stale ≠ Codec.encode {} leading := by
  decide

end Stacktrace
