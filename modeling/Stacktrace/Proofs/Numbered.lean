import Stacktrace.Proofs.AlikeRows
import Stacktrace.Proofs.DecodedLinks

/-!
# Graphs that are alike and numbered alike

Graphs that are alike have as many failures as each other in every part, so that their failures are
numbered in the same way when they are numbered in the order of the walk. If their links lead to the
nearest failure with the display text, too, nothing is left in which they could differ
(`eq_of_alike`). So a graph that has been read is known from any graph that it is like.
-/

namespace Stacktrace
namespace Failure
variable {ι κ : Type}

theorem length_flatMap_ids_of_alikeIn {fs : List (Failure ι)} {gs : List (Failure κ)}
    (h : alikeIn fs gs = true)
    (hlength : ∀ f ∈ fs, ∀ g ∈ gs, f.alike g = true → f.ids.length = g.ids.length) :
    (fs.flatMap ids).length = (gs.flatMap ids).length := by
  have hlengths : (fs.flatMap fun f => [f.ids.length]) = gs.flatMap fun g => [g.ids.length] :=
    flatMap_eq_of_alikeIn h fun f hf g hg hfg => by rw [hlength f hf g hg hfg]
  rw [List.length_flatMap, List.length_flatMap, List.map_eq_flatMap, hlengths, List.map_eq_flatMap]

theorem length_ids_of_alike {f : Failure ι} {g : Failure κ} (h : f.alike g = true) :
    f.ids.length = g.ids.length := by
  induction f using induct_children generalizing g with
  | node f ih =>
    obtain ⟨-, -, -, -, hsuppressed, -⟩ := alike_iff.1 h
    have hchildren : alikeIn f.children g.children = true :=
      alikeIn_append hsuppressed (alikeIn_source? h)
    rw [ids_eq_cons, ids_eq_cons, List.length_cons, List.length_cons,
      length_flatMap_ids_of_alikeIn hchildren fun c hc d _ hcd => ih c hc hcd]

theorem eq_of_alikeIn {fs gs : List (Failure ι)} (h : alikeIn fs gs = true)
    (hids : fs.flatMap ids = gs.flatMap ids)
    (heq : ∀ f ∈ fs, ∀ g ∈ gs, f.alike g = true → f.ids = g.ids → f = g) : fs = gs := by
  induction fs generalizing gs with
  | nil =>
    cases gs with
    | nil => rfl
    | cons g gs => simp [alikeIn] at h
  | cons f fs ih =>
    cases gs with
    | nil => simp [alikeIn] at h
    | cons g gs =>
      rw [alikeIn, Bool.and_eq_true] at h
      rw [List.flatMap_cons, List.flatMap_cons] at hids
      obtain ⟨hfirst, hrest⟩ := List.append_inj hids (length_ids_of_alike h.1)
      rw [heq f List.mem_cons_self g List.mem_cons_self h.1 hfirst, ih h.2 hrest fun f hf g hg =>
        heq f (List.mem_cons_of_mem _ hf) g (List.mem_cons_of_mem _ hg)]

theorem eq_of_alike {depth : Nat} {scope : Scope ι} {f g : Failure ι} (h : f.alike g = true)
    (hids : f.ids = g.ids) (hf : f.All scopeEntry (fun _ => Named) depth scope)
    (hg : g.All scopeEntry (fun _ => Named) depth scope) : f = g := by
  induction f generalizing depth scope g with
  | node f ihSuppressed ihCause =>
    obtain ⟨htype, hmessage, hframes, horigin, hsuppressed, hcause⟩ := alike_iff.1 h
    obtain ⟨hfLink, hfSuppressed, hfCause⟩ := all_iff.1 hf
    obtain ⟨hgLink, hgSuppressed, hgCause⟩ := all_iff.1 hg
    rw [ids_eq_cons, ids_eq_cons, List.cons.injEq, children, children, List.flatMap_append,
      List.flatMap_append] at hids
    obtain ⟨hid, hbelow⟩ := hids
    obtain ⟨hbeside, hsource⟩ := List.append_inj hbelow
      (length_flatMap_ids_of_alikeIn hsuppressed fun _ _ _ _ => length_ids_of_alike)
    have hentry : g.scopeEntry = f.scopeEntry :=
      Prod.ext hid.symm (displayText_eq_of_alike h)
    rw [hentry] at hgSuppressed hgCause
    have hsuppressedEq : f.suppressed = g.suppressed :=
      eq_of_alikeIn hsuppressed hbeside fun s hs s' hs' hss hidsEq =>
        ihSuppressed s hs hss hidsEq (hfSuppressed s hs) (hgSuppressed s' hs')
    have hcauseEq : f.cause = g.cause := by
      cases hfc : f.cause with
      | none =>
        cases hgc : g.cause with
        | none => rfl
        | _ => simp [hfc, hgc, alikeCause] at hcause
      | owned c =>
        cases hgc : g.cause with
        | owned d =>
          rw [hfc, hgc, alikeCause] at hcause
          rw [source?_eq_some_iff.2 hfc, source?_eq_some_iff.2 hgc, Option.toList_some,
            Option.toList_some, List.flatMap_singleton, List.flatMap_singleton] at hsource
          rw [ihCause c hfc hcause hsource (hfCause c hfc) (hgCause d hgc)]
        | _ => simp [hfc, hgc, alikeCause] at hcause
      | backRef link =>
        cases hgc : g.cause with
        | backRef found =>
          have hdisplay : link.display = found.display := by
            simpa [hfc, hgc, alikeCause] using hcause
          -- both are the first in scope with this display text
          have hfound := hgLink found (by rw [hgc]; rfl)
          rw [hentry, ← hdisplay, hfLink link (by rw [hfc]; rfl), Option.some.injEq,
            Prod.mk.injEq] at hfound
          cases link
          cases found
          simp_all
        | _ => simp [hfc, hgc, alikeCause] at hcause
    cases f
    cases g
    simp_all

end Failure

/-- Graphs that have been read with the same first number are equal when they are alike. -/
theorem eq_of_alike_of_decodeFrom {codec codec' : Codec} {first : Nat} {t t' : Text}
    {g g' : Failure Nat} (h : codec.decodeFrom first t = .ok g)
    (h' : codec'.decodeFrom first t' = .ok g') (halike : g.alike g' = true) : g = g' := by
  refine Failure.eq_of_alike halike ?_ (allNamed_of_decodeFrom h) (allNamed_of_decodeFrom h')
  rw [ids_eq_range'_of_decodeFrom h, ids_eq_range'_of_decodeFrom h',
    Failure.length_ids_of_alike halike]

end Stacktrace
