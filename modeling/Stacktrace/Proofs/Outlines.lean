import Stacktrace.Failure.Walker
import Stacktrace.Proofs.AlikeRows

/-!
# Graphs known from their walks

The outline of a visit is all that can be seen of it but identities. Up to identities, a graph is
known from the outlines of its walk (`map_outline_visits_eq_iff`). The visits of all that hangs off
a failure end where the depth falls below its own, or where the next visit is of a failure that is
suppressed at its depth, so the outlines of one failure are told from those that follow them
(`Failure.told`).
-/

namespace Stacktrace
variable {ι κ : Type}

structure Outline where
  depth : Nat
  relation : Relation
  typeName : Text
  message : Option Text
  origin : Origin
  frames : List Frame
  /-- What the link shows that the failure has for a cause. -/
  link : Option Text

def Visit.outline (v : Visit ι) : Outline :=
  ⟨v.depth, v.relation, v.node.typeName, v.node.message, v.node.origin, v.node.frames,
    v.node.cause.backRef?.map (·.display)⟩

/-- Whether outlines do not begin with one of what hangs off a failure at a depth. -/
def Outline.Past (depth : Nat) (os : List Outline) : Prop :=
  ∀ o ∈ os.head?, o.depth < depth ∨ o.depth = depth ∧ o.relation = .suppressed

namespace Failure
open Outline

def outlines (depth : Nat) (relation : Relation) (f : Failure ι) : List Outline :=
  (f.visits depth relation).map Visit.outline

theorem outlines_eq_cons (depth : Nat) (relation : Relation) (f : Failure ι) :
    f.outlines depth relation = Visit.outline ⟨depth, relation, f⟩ ::
      (f.suppressed.flatMap (outlines (depth + 1) .suppressed) ++
        f.source?.toList.flatMap (outlines depth .cause)) := by
  rw [outlines, visits_eq_cons, List.map_cons, List.map_append, List.map_flatMap, List.map_flatMap]
  rfl

/-! ## The same graph from the same outlines -/

section Reading
variable {depth : Nat} {xs ys : List Outline}

/-- Whether the outlines of a failure, with others behind them, are those of no failure but ones
that it is like. -/
def Told (κ : Type) (depth : Nat) (relation : Relation) (f : Failure ι) : Prop :=
  ∀ (other : Relation) (g : Failure κ) (xs ys : List Outline), Past depth xs → Past depth ys →
    f.outlines depth relation ++ xs = g.outlines depth other ++ ys → f.alike g = true ∧ xs = ys

theorem past_flatMap_outlines (hxs : ∀ o ∈ xs.head?, o.depth < depth) (fs : List (Failure ι)) :
    Past depth (fs.flatMap (outlines depth .suppressed) ++ xs) := by
  intro o ho
  cases fs with
  | nil => exact .inl (hxs o ho)
  | cons f fs =>
    rw [List.flatMap_cons, outlines_eq_cons] at ho
    cases ho
    exact .inr ⟨rfl, rfl⟩

theorem lt_succ_of_past (hxs : Past depth xs) (f : Failure ι) :
    ∀ o ∈ (f.source?.toList.flatMap (outlines depth .cause) ++ xs).head?, o.depth < depth + 1 := by
  intro o ho
  cases hc : f.source? with
  | none =>
    rw [hc] at ho
    rcases hxs o ho with hlt | ⟨heq, -⟩ <;> omega
  | some c =>
    rw [hc, Option.toList_some, List.flatMap_singleton, outlines_eq_cons] at ho
    cases ho
    exact Nat.lt_succ_self depth

theorem ne_of_past (hxs : Past depth xs) (f : Failure ι) (ys : List Outline) :
    xs ≠ f.outlines depth .cause ++ ys := by
  intro h
  rw [h, outlines_eq_cons] at hxs
  rcases hxs _ rfl with hlt | ⟨-, hrelation⟩
  · exact Nat.lt_irrefl _ hlt
  · cases hrelation

theorem ne_of_lt (hxs : ∀ o ∈ xs.head?, o.depth < depth) (f : Failure ι) (ys : List Outline) :
    xs ≠ f.outlines depth .suppressed ++ ys := by
  intro h
  rw [h, outlines_eq_cons] at hxs
  exact Nat.lt_irrefl _ (hxs _ rfl)

theorem alikeIn_of_outlines {fs : List (Failure ι)} {gs : List (Failure κ)}
    (hfs : ∀ f ∈ fs, f.Told κ depth .suppressed) (hxs : ∀ o ∈ xs.head?, o.depth < depth)
    (hys : ∀ o ∈ ys.head?, o.depth < depth)
    (h : fs.flatMap (outlines depth .suppressed) ++ xs =
      gs.flatMap (outlines depth .suppressed) ++ ys) : alikeIn fs gs = true ∧ xs = ys := by
  induction fs generalizing gs with
  | nil =>
    cases gs with
    | nil => exact ⟨rfl, h⟩
    | cons g gs =>
      rw [List.flatMap_cons, List.append_assoc] at h
      exact absurd h (ne_of_lt hxs g _)
  | cons f fs ih =>
    obtain ⟨hf, hfs⟩ := List.forall_mem_cons.1 hfs
    rw [List.flatMap_cons, List.append_assoc] at h
    cases gs with
    | nil => exact absurd h.symm (ne_of_lt hys f _)
    | cons g gs =>
      rw [List.flatMap_cons, List.append_assoc] at h
      obtain ⟨hfg, hrest⟩ := hf .suppressed g _ _ (past_flatMap_outlines hxs fs)
        (past_flatMap_outlines hys gs) h
      obtain ⟨hall, heq⟩ := ih hfs hrest
      exact ⟨by rw [alikeIn, hfg, hall, Bool.and_self], heq⟩

theorem alikeCause_of_outlines {cause : Cause ι (Failure ι)} {other : Cause κ (Failure κ)}
    (hcause : ∀ f, cause = .owned f → f.Told κ depth .cause) (hxs : Past depth xs)
    (hys : Past depth ys)
    (hlink : cause.backRef?.map (·.display) = other.backRef?.map (·.display))
    (h : cause.owned?.toList.flatMap (outlines depth .cause) ++ xs =
      other.owned?.toList.flatMap (outlines depth .cause) ++ ys) :
    alikeCause cause other = true ∧ xs = ys := by
  cases cause with
  | owned f =>
    rw [Cause.owned?, Option.toList_some, List.flatMap_singleton] at h
    cases other with
    | owned g =>
      rw [Cause.owned?, Option.toList_some, List.flatMap_singleton] at h
      exact hcause f rfl .cause g xs ys hxs hys h
    | none => exact absurd h.symm (ne_of_past hys f xs)
    | backRef link => exact absurd h.symm (ne_of_past hys f xs)
  | none =>
    cases other with
    | owned g =>
      have hnext : xs = g.outlines depth .cause ++ ys := by
        simpa [Cause.owned?] using h
      exact absurd hnext (ne_of_past hxs g ys)
    | none => exact ⟨rfl, h⟩
    | backRef link => cases hlink
  | backRef link =>
    cases other with
    | owned g => cases hlink
    | none => cases hlink
    | backRef found =>
      have hdisplay : link.display = found.display := Option.some.inj hlink
      exact ⟨by rw [alikeCause, hdisplay, decide_eq_true rfl], h⟩

theorem told (depth : Nat) (relation : Relation) (f : Failure ι) : f.Told κ depth relation := by
  induction f generalizing depth relation with
  | node f ihSuppressed ihCause =>
    intro other g xs ys hxs hys h
    rw [outlines_eq_cons, outlines_eq_cons depth other, List.cons_append, List.cons_append,
      List.cons.injEq, List.append_assoc, List.append_assoc] at h
    obtain ⟨hhere, hbelow⟩ := h
    obtain ⟨hsuppressed, hbelow⟩ := alikeIn_of_outlines
      (fun s hs => ihSuppressed s hs (depth + 1) .suppressed) (lt_succ_of_past hxs f)
      (lt_succ_of_past hys g) hbelow
    simp only [Visit.outline, Outline.mk.injEq, true_and] at hhere
    obtain ⟨-, htype, hmessage, horigin, hframes, hlink⟩ := hhere
    obtain ⟨hcause, heq⟩ := alikeCause_of_outlines (fun c hc => ihCause c hc depth .cause) hxs hys
      hlink hbelow
    exact ⟨alike_iff.2 ⟨htype, hmessage, hframes, horigin, hsuppressed, hcause⟩, heq⟩

end Reading

theorem outlines_eq_of_alike {f : Failure ι} {g : Failure κ} (h : f.alike g = true) (depth : Nat)
    (relation : Relation) : f.outlines depth relation = g.outlines depth relation := by
  induction f generalizing g depth relation with
  | node f ihSuppressed ihCause =>
    obtain ⟨htype, hmessage, hframes, horigin, hsuppressed, hcause⟩ := alike_iff.1 h
    have hbeside := flatMap_eq_of_alikeIn hsuppressed fun s hs t _ hst =>
      ihSuppressed s hs hst (depth + 1) .suppressed
    have hbelow := flatMap_eq_of_alikeIn (alikeIn_source? h) fun c hc d _ hcd =>
      ihCause c (mem_toList_source?.1 hc) hcd depth .cause
    have hlink : f.cause.backRef?.map (·.display) = g.cause.backRef?.map (·.display) := by
      cases hf : f.cause <;> cases hg : g.cause <;> simp_all [alikeCause, Cause.backRef?]
    rw [outlines_eq_cons, outlines_eq_cons _ _ g, hbeside, hbelow, Visit.outline, Visit.outline,
      htype, hmessage, hframes, horigin, hlink]

end Failure

/-- Two graphs are alike if and only if their walks make as many visits, which agree one by one in
all but identities. -/
theorem map_outline_visits_eq_iff (a : Failure ι) (b : Failure κ) :
    (Walker.start a).visits.map Visit.outline = (Walker.start b).visits.map Visit.outline ↔
      a.alike b = true := by
  rw [Walker.visits_start, Walker.visits_start]
  constructor
  · intro h
    refine (a.told 0 .root .root b [] [] (by simp [Outline.Past]) (by simp [Outline.Past]) ?_).1
    exact congrArg (· ++ []) h
  · exact fun h => Failure.outlines_eq_of_alike h 0 .root

end Stacktrace
