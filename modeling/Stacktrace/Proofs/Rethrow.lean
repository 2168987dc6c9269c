import Stacktrace.Proofs.Settled
import Stacktrace.Transform.Context
import Stacktrace.Transform.Rule

/-!
# Failures that are raised again

A context raises a failure again with what its default transform leaves of it. Where the transform
leaves nothing, the root is raised without its cause, and otherwise as any failure that is kept, so
a failure is never lost (`rethrow_setDefault`).
-/

namespace Stacktrace.Transform
open Failure
variable {ι : Type} {t : Transform ι}

theorem unwrapsNode_of_cause_eq_none {f : Failure ι} (h : f.cause = .none) :
    t.unwrapsNode f = true ↔ ∃ rule ∈ t.unwraps, rule f = true := by
  rw [unwrapsNode, h, Bool.and_eq_true, List.any_eq_true]
  exact and_iff_right rfl

variable [DecidableEq ι]

theorem applyCause_eq_none_iff {cause : Cause ι (Failure ι)} : t.applyCause cause = .none ↔
    cause.backRef? = none ∧ ∀ c, cause = .owned c → t.apply c = none := by
  cases cause with
  | none => simp [applyCause, Cause.backRef?]
  | owned c => cases h : t.apply c <;> simp [applyCause, Cause.backRef?, h]
  | backRef link => simp [applyCause, Cause.backRef?]

/-- Nothing is left of a graph if every failure on the chain of causes is one that a rule matches
when it has no cause any more. -/
theorem apply_eq_none_iff_causeChain {f : Failure ι} : t.apply f = none ↔ ∀ n ∈ f.causeChain,
    n.cause.backRef? = none ∧ ∃ rule ∈ t.unwraps, rule { n with cause := .none } = true := by
  induction f with
  | node f _ ihCause =>
    rw [apply_eq_none_iff, applyCause_eq_none_iff, unwrapsNode_of_cause_eq_none rfl,
      causeChain_eq_cons, List.forall_mem_cons, source?]
    cases hc : f.cause with
    | none => simp [Cause.owned?]
    | owned c =>
      simp only [Cause.owned.injEq, forall_eq', ihCause c hc, Cause.owned?, Option.toList_some,
        List.flatMap_singleton]
      exact and_right_comm
    | backRef link => simp [Cause.backRef?]

theorem keep_of_applyCause_eq_none {f : Failure ι} (h : t.applyCause f.cause = .none) :
    let kept := { f with
      suppressed := f.suppressed.filterMap t.apply
      frames := t.editFrames f.frames
      cause := .none }
    t.keep f = { kept with message := t.message.elim f.message fun rule => rule kept } := by
  rw [keep, editNode, h]
  cases t.message <;> rfl

/-- What a context raises again is what its default transform leaves, if it leaves anything, and
otherwise the root with its frames and then its message changed, with what is left of the failures
that were suppressed beside it and without a cause. -/
theorem rethrow_setDefault {α : Type} (c : Context ι) (t : Transform ι) (g : Failure ι) :
    ((c.setDefault t).1.rethrow g : Except (Failure ι) α) = .error (t.applyKeepingRoot g) ∧
      (∀ r, t.apply g = some r → t.applyKeepingRoot g = r) ∧
      (t.apply g = none →
        let kept := { g with
          suppressed := g.suppressed.filterMap t.apply
          frames := t.editFrames g.frames
          cause := .none }
        t.applyKeepingRoot g =
          { kept with message := t.message.elim g.message fun rule => rule kept }) ∧
      (t.apply g = none ↔ ∀ n ∈ g.causeChain, n.cause.backRef? = none ∧
        ∃ rule ∈ t.unwraps, rule { n with cause := .none } = true) := by
  refine ⟨rfl, fun r hr => applyKeepingRoot_of_apply hr, fun hnone => ?_,
    apply_eq_none_iff_causeChain⟩
  have hcause := (apply_eq_none_iff.1 hnone).1
  rw [applyKeepingRoot_of_cause_eq_none hcause, keep_of_applyCause_eq_none hcause]

/-! A chain of causes of which nothing is left, by itself and below a failure that stays. -/

def discarding : Transform Nat :=
  { unwraps := [(UnwrapRule.holds · (.typeIs ['W']))]
    frames := [(FrameRule.map? · .dropNative)]
    message := some (MessageRule.messageOf · .summary) }

def hollow : Failure Nat :=
  { ofType 0 ['W'] with
    frames := [⟨['u'], ['o'], none, .native⟩, ⟨['u'], ['p'], none, .unavailable⟩]
    suppressed := [ofType 1 ['W'], ofType 2 ['S']]
    cause := .owned { ofType 3 ['W'] with suppressed := [ofType 4 ['S']] } }

def hollowKept : Failure Nat :=
  { ofType 0 ['W'] with
    message := some "W|-|1|1|none".toList
    frames := [⟨['u'], ['p'], none, .unavailable⟩]
    suppressed := [{ ofType 2 ['S'] with message := some "S|-|0|0|none".toList }] }

theorem rethrow_hollow :
    discarding.apply hollow = none ∧
      ((Context.setDefault {} discarding).1.rethrow hollow : Except (Failure Nat) Unit) =
        .error hollowKept ∧
      discarding.apply { ofType 5 ['T'] with cause := .owned hollow } =
        some { ofType 5 ['T'] with message := some "T|-|0|0|none".toList } ∧
      ((Context.setDefault {} discarding).1.rethrow { ofType 5 ['T'] with cause := .owned hollow } :
        Except (Failure Nat) Unit) =
        .error { ofType 5 ['T'] with message := some "T|-|0|0|none".toList } := by
  obtain ⟨hraised, -, hlost, -⟩ := rethrow_setDefault (α := Unit) {} discarding hollow
  obtain ⟨hraised', hleft, -, -⟩ := rethrow_setDefault (α := Unit) {} discarding
    { ofType 5 ['T'] with cause := .owned hollow }
  have hnone : discarding.apply hollow = none := rfl
  have hsome : discarding.apply { ofType 5 ['T'] with cause := .owned hollow } =
      some { ofType 5 ['T'] with message := some "T|-|0|0|none".toList } := rfl
  exact ⟨hnone, hraised.trans (congrArg Except.error (hlost hnone)), hsome,
    hraised'.trans (congrArg Except.error (hleft _ hsome))⟩

end Stacktrace.Transform
