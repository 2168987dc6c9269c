import Stacktrace.Failure.Alike
import Stacktrace.Proofs.Lineage
import Stacktrace.Proofs.MarkRows

/-!
# Rows of graphs that are alike

Graphs that differ in identities only are written as the same rows when the links of both show the
display texts that they keep. In a graph with pairwise distinct identities that is so when each link
is the one that its target gives now.
-/

namespace Stacktrace.Failure
variable {ι κ : Type}

theorem alike_iff {f : Failure ι} {g : Failure κ} : f.alike g = true ↔
    f.typeName = g.typeName ∧ f.message = g.message ∧ f.frames = g.frames ∧ f.origin = g.origin ∧
      alikeIn f.suppressed g.suppressed = true ∧ alikeCause f.cause g.cause = true := by
  cases f
  cases g
  simp only [alike, Bool.and_eq_true, decide_eq_true_eq, and_assoc]

theorem alikeIn_map {φ : Failure ι → Failure κ} {fs : List (Failure ι)}
    (h : ∀ f ∈ fs, f.alike (φ f) = true) : alikeIn fs (fs.map φ) = true := by
  induction fs with
  | nil => rfl
  | cons f fs ih =>
    obtain ⟨hf, hfs⟩ := List.forall_mem_cons.1 h
    rw [List.map_cons, alikeIn, hf, ih hfs, Bool.and_self]

theorem alike_refl (f : Failure ι) : f.alike f = true := by
  induction f with
  | node f ihSuppressed ihCause =>
    have hsuppressed : alikeIn f.suppressed (f.suppressed.map fun s => s) = true :=
      alikeIn_map ihSuppressed
    rw [List.map_id'] at hsuppressed
    refine alike_iff.2 ⟨rfl, rfl, rfl, rfl, hsuppressed, ?_⟩
    cases hc : f.cause with
    | none => rfl
    | owned c => exact ihCause c hc
    | backRef link => exact decide_eq_true rfl

theorem alikeIn_symm {fs : List (Failure ι)} {gs : List (Failure κ)} (h : alikeIn fs gs = true)
    (hsymm : ∀ f ∈ fs, ∀ g : Failure κ, f.alike g = true → g.alike f = true) :
    alikeIn gs fs = true := by
  induction fs generalizing gs with
  | nil =>
    cases gs with
    | nil => rfl
    | cons g gs => simp [alikeIn] at h
  | cons f fs ih =>
    cases gs with
    | nil => simp [alikeIn] at h
    | cons g gs =>
      obtain ⟨hf, hfs⟩ := List.forall_mem_cons.1 hsymm
      rw [alikeIn, Bool.and_eq_true] at h
      rw [alikeIn, hf g h.1, ih h.2 hfs, Bool.and_self]

theorem alike_symm {f : Failure ι} {g : Failure κ} (h : f.alike g = true) : g.alike f = true := by
  induction f generalizing g with
  | node f ihSuppressed ihCause =>
    obtain ⟨htype, hmessage, hframes, horigin, hsuppressed, hcause⟩ := alike_iff.1 h
    refine alike_iff.2 ⟨htype.symm, hmessage.symm, hframes.symm, horigin.symm,
      alikeIn_symm hsuppressed fun s hs g => ihSuppressed s hs, ?_⟩
    cases hf : f.cause <;> cases hg : g.cause <;> simp_all [alikeCause]

theorem alikeIn_trans {μ : Type} {fs : List (Failure ι)} {gs : List (Failure κ)}
    {hs : List (Failure μ)} (h : alikeIn fs gs = true) (h' : alikeIn gs hs = true)
    (htrans : ∀ f ∈ fs, ∀ (g : Failure κ) (i : Failure μ), f.alike g = true → g.alike i = true →
      f.alike i = true) : alikeIn fs hs = true := by
  induction fs generalizing gs hs with
  | nil => cases gs <;> cases hs <;> simp_all [alikeIn]
  | cons f fs ih =>
    cases gs with
    | nil => simp [alikeIn] at h
    | cons g gs =>
      cases hs with
      | nil => simp [alikeIn] at h'
      | cons i hs =>
        obtain ⟨hf, hfs⟩ := List.forall_mem_cons.1 htrans
        rw [alikeIn, Bool.and_eq_true] at h h'
        rw [alikeIn, hf g i h.1 h'.1, ih h.2 h'.2 hfs, Bool.and_self]

theorem alike_trans {μ : Type} {f : Failure ι} {g : Failure κ} {i : Failure μ}
    (h : f.alike g = true) (h' : g.alike i = true) : f.alike i = true := by
  induction f generalizing g i with
  | node f ihSuppressed ihCause =>
    obtain ⟨htype, hmessage, hframes, horigin, hsuppressed, hcause⟩ := alike_iff.1 h
    obtain ⟨htype', hmessage', hframes', horigin', hsuppressed', hcause'⟩ := alike_iff.1 h'
    refine alike_iff.2 ⟨htype.trans htype', hmessage.trans hmessage', hframes.trans hframes',
      horigin.trans horigin',
      alikeIn_trans hsuppressed hsuppressed' fun s hs g i => ihSuppressed s hs, ?_⟩
    cases hf : f.cause with
    | owned c =>
      cases hg : g.cause with
      | owned d =>
        cases hi : i.cause with
        | owned e =>
          rw [hf, hg, alikeCause] at hcause
          rw [hg, hi, alikeCause] at hcause'
          exact ihCause c hf hcause hcause'
        | _ => simp [hg, hi, alikeCause] at hcause'
      | _ => simp [hf, hg, alikeCause] at hcause
    | _ => cases hg : g.cause <;> cases hi : i.cause <;> simp_all [alikeCause]

theorem alikeIn_append {fs more : List (Failure ι)} {gs others : List (Failure κ)}
    (h : alikeIn fs gs = true) (hmore : alikeIn more others = true) :
    alikeIn (fs ++ more) (gs ++ others) = true := by
  induction fs generalizing gs with
  | nil =>
    cases gs with
    | nil => exact hmore
    | cons g gs => simp [alikeIn] at h
  | cons f fs ih =>
    cases gs with
    | nil => simp [alikeIn] at h
    | cons g gs =>
      rw [alikeIn, Bool.and_eq_true] at h
      rw [List.cons_append, List.cons_append, alikeIn, h.1, ih h.2, Bool.and_self]

theorem alikeIn_source? {f : Failure ι} {g : Failure κ} (h : f.alike g = true) :
    alikeIn f.source?.toList g.source?.toList = true := by
  obtain ⟨-, -, -, -, -, hcause⟩ := alike_iff.1 h
  rw [source?, source?]
  cases hf : f.cause <;> cases hg : g.cause <;>
    simp_all [alikeCause, Cause.owned?, alikeIn]

theorem displayText_eq_of_alike {f : Failure ι} {g : Failure κ} (h : f.alike g = true) :
    g.displayText = f.displayText := by
  obtain ⟨htype, hmessage, -, horigin, -, -⟩ := alike_iff.1 h
  rw [displayText, displayText, displayType, displayType, htype, hmessage, horigin]

theorem flatMap_eq_of_alikeIn {α : Type} {fs : List (Failure ι)} {gs : List (Failure κ)}
    {p : Failure ι → List α} {q : Failure κ → List α} (h : alikeIn fs gs = true)
    (hpq : ∀ f ∈ fs, ∀ g ∈ gs, f.alike g = true → p f = q g) : fs.flatMap p = gs.flatMap q := by
  induction fs generalizing gs with
  | nil =>
    cases gs with
    | nil => rfl
    | cons g gs => simp [alikeIn] at h
  | cons f fs ih =>
    cases gs with
    | nil => simp [alikeIn] at h
    | cons g gs =>
      rw [alikeIn, Bool.and_eq_true] at h
      have hrest := ih h.2 fun f hf g hg =>
        hpq f (List.mem_cons_of_mem _ hf) g (List.mem_cons_of_mem _ hg)
      rw [List.flatMap_cons, List.flatMap_cons, hrest,
        hpq f List.mem_cons_self g List.mem_cons_self h.1]

theorem length_eq_of_alikeIn {fs : List (Failure ι)} {gs : List (Failure κ)}
    (h : alikeIn fs gs = true) : fs.length = gs.length := by
  have hunits : (fs.flatMap fun _ => [()]) = gs.flatMap fun _ => [()] :=
    flatMap_eq_of_alikeIn h fun _ _ _ _ _ => rfl
  simpa using congrArg List.length hunits

section Written
variable [DecidableEq ι] [DecidableEq κ]

/-- Whether the link of a failure, if it has one, keeps the display text that it is written with. -/
def LinkCurrent (scope : Scope ι) (f : Failure ι) : Prop :=
  ∀ link ∈ f.cause.backRef?,
    ((f.scopeEntry :: scope).lookup link.target).getD link.display = link.display

abbrev AllLinksCurrent (depth : Nat) (scope : Scope ι) (f : Failure ι) : Prop :=
  All scopeEntry (fun _ => LinkCurrent) depth scope f

theorem bodyRows_eq_of_alike {depth : Nat} {scope : Scope ι} {other : Scope κ} {f : Failure ι}
    {g : Failure κ} (h : f.alike g = true) (hf : f.AllLinksCurrent depth scope)
    (hg : g.AllLinksCurrent depth other) : f.bodyRows scope depth = g.bodyRows other depth := by
  induction f generalizing depth scope other g with
  | node f ihSuppressed ihCause =>
    obtain ⟨-, -, hframes, -, hsuppressed, hcause⟩ := alike_iff.1 h
    obtain ⟨hfLink, hfSuppressed, hfCause⟩ := all_iff.1 hf
    obtain ⟨hgLink, hgSuppressed, hgCause⟩ := all_iff.1 hg
    have hbeside := flatMap_eq_of_alikeIn hsuppressed
      (p := fun x => suppressedRow depth x :: x.bodyRows (f.scopeEntry :: scope) (depth + 1))
      (q := fun y => suppressedRow depth y :: y.bodyRows (g.scopeEntry :: other) (depth + 1))
      fun x hx y hy hxy => by
        rw [ihSuppressed x hx hxy (hfSuppressed x hx) (hgSuppressed y hy), suppressedRow,
          suppressedRow, displayText_eq_of_alike hxy]
    have hbelow : causeRows (f.scopeEntry :: scope) depth f.cause =
        causeRows (g.scopeEntry :: other) depth g.cause := by
      cases hfc : f.cause with
      | none =>
        cases hgc : g.cause with
        | none => rfl
        | _ => simp [hfc, hgc, alikeCause] at hcause
      | owned c =>
        cases hgc : g.cause with
        | owned d =>
          rw [hfc, hgc, alikeCause] at hcause
          rw [causeRows, causeRows, ihCause c hfc hcause (hfCause c hfc) (hgCause d hgc), causeRow,
            causeRow, displayText_eq_of_alike hcause]
        | _ => simp [hfc, hgc, alikeCause] at hcause
      | backRef link =>
        cases hgc : g.cause with
        | backRef found =>
          have hdisplay : link.display = found.display := by simpa [hfc, hgc, alikeCause] using hcause
          rw [causeRows, causeRows, circularRow_eq_row (hfLink link (by rw [hfc]; rfl)),
            circularRow_eq_row (hgLink found (by rw [hgc]; rfl)), hdisplay]
        | _ => simp [hfc, hgc, alikeCause] at hcause
    rw [bodyRows_eq, bodyRows_eq _ _ g, hframes, hbeside, hbelow]

theorem rows_eq_of_alike {f : Failure ι} {g : Failure κ} (h : f.alike g = true)
    (hf : f.AllLinksCurrent 0 []) (hg : g.AllLinksCurrent 0 []) : f.rows = g.rows := by
  rw [rows, rows, bodyRows_eq_of_alike h hf hg, displayText_eq_of_alike h]

/-- With pairwise distinct identities a link that its target gives now is written as it is kept. -/
theorem linkCurrent_of_mem_lineages {g : Failure ι} (hids : g.ids.Nodup) {p : Lineage ι}
    (hp : p ∈ g.lineages) (hlinks : ∀ link ∈ p.node.cause.backRef?, ∃ target ∈ p.path,
      target.link = link) : p.node.LinkCurrent (p.above.map scopeEntry) := by
  intro link hlink
  obtain ⟨target, htarget, rfl⟩ := hlinks link hlink
  have hpath : p.node.scopeEntry :: p.above.map scopeEntry = p.path.map scopeEntry := rfl
  have hmem : (target.link.target, target.link.display) ∈ p.path.map scopeEntry :=
    List.mem_map_of_mem htarget
  have hunique (entry : ι × Text) (hentry : entry ∈ p.path.map scopeEntry)
      (hid : entry.1 = target.link.target) : entry.2 = target.link.display := by
    obtain ⟨a, ha, rfl⟩ := List.mem_map.1 hentry
    have hsame := List.inj_on_of_nodup_map hids (mem_nodes_of_mem_path hp ha)
      (mem_nodes_of_mem_path hp htarget) hid
    rw [hsame]
    rfl
  rw [hpath, lookup_eq_some hmem hunique, Option.getD_some]

end Written
end Stacktrace.Failure
