import Stacktrace.Proofs.Renaming
import Stacktrace.Proofs.Survivors
import Stacktrace.Transform.Rule

/-!
# Transforms of graphs with other identities

A transform compares identities to find the links that lead to a failure which gives its place away.
If none of its rules looks at identities, it does the same to a graph with other identities, as long
as those that the graph uses stay apart from each other: a transform brings in no identities
(`Leaves.namesIn`), so they are apart in what is left of each failure, too. No rule that has a name
looks at identities (`Builder.blindToIds_run`).
-/

namespace Stacktrace
variable {ι κ : Type}

namespace Failure
variable [DecidableEq ι] {K : Set ι}

theorem NamesIn.retarget {f : Failure ι} (hf : f.NamesIn K) (old : ι) {link : BackRef ι}
    (hlink : link.target ∈ K) : (f.retarget old link).NamesIn K := by
  intro n hn
  rw [nodes_retarget] at hn
  obtain ⟨m, hm, rfl⟩ := List.mem_map.1 hn
  obtain ⟨hid, htarget⟩ := hf m hm
  refine ⟨by rwa [retarget_id], ?_⟩
  intro found hfound
  rw [retarget_cause, backRef?_retargetCause, Option.mem_def, Option.map_eq_some_iff] at hfound
  obtain ⟨before, hbefore, rfl⟩ := hfound
  split
  · exact hlink
  · exact htarget before hbefore

end Failure

namespace Transform
open Failure
variable [DecidableEq ι] {K : Set ι}

theorem Leaves.namesIn {t : Transform ι} {f r : Failure ι} (h : t.Leaves f r) (hf : f.NamesIn K) :
    r.NamesIn K := by
  induction f using induct_children generalizing r with
  | node f ih =>
    have hleft (c d : Failure ι) (hc : c ∈ f.children) (happly : t.apply c = some d) :
        d.NamesIn K := ih c hc (leaves_of_apply happly) (hf.of_mem_children hc)
    cases h with
    | kept =>
      rw [namesIn_iff, keep_id, keep_cause, backRef?_applyCause, children_keep]
      refine ⟨hf.id_mem, (namesIn_iff.1 hf).2.1, ?_⟩
      intro d hd
      obtain ⟨c, hc, happly⟩ := List.mem_filterMap.1 hd
      exact hleft c d hc happly
    | @replaced c d hcause happly =>
      -- the links that are pointed elsewhere lead to `d`, which is part of what is left
      have hd := hleft c d (mem_children.2 (.inr hcause)) happly
      exact hd.retarget f.id hd.id_mem

end Transform

namespace Failure
variable [DecidableEq ι] {ρ : ι → ι} {K : Set ι} (hρ : Set.InjOn ρ K)
include hρ

theorem retargetCause_rename {old : ι} (hold : old ∈ K) (link : BackRef ι)
    {cause : Cause ι (Failure ι)} (hlink : ∀ found ∈ cause.backRef?, found.target ∈ K)
    (howned : ∀ c, cause = .owned c →
      (c.rename ρ).retarget (ρ old) (link.rename ρ) = (c.retarget old link).rename ρ) :
    retargetCause (ρ old) (link.rename ρ) (renameCause ρ cause) =
      renameCause ρ (retargetCause old link cause) := by
  cases cause with
  | none => rfl
  | owned c => rw [renameCause, retargetCause, howned c rfl, retargetCause, renameCause]
  | backRef found =>
    have hsame : (found.rename ρ).target = ρ old ↔ found.target = old :=
      hρ.eq_iff (hlink found rfl) hold
    rw [renameCause, retargetCause, retargetCause, renameCause]
    by_cases h : found.target = old
    · rw [if_pos h, if_pos (hsame.2 h)]
    · rw [if_neg h, if_neg (mt hsame.1 h)]

theorem retarget_rename {old : ι} (hold : old ∈ K) (link : BackRef ι) {f : Failure ι}
    (hf : f.NamesIn K) :
    (f.rename ρ).retarget (ρ old) (link.rename ρ) = (f.retarget old link).rename ρ := by
  induction f with
  | node f ihSuppressed ihCause =>
    have hcause := retargetCause_rename hρ hold link (namesIn_iff.1 hf).2.1
      fun c hc => ihCause c hc (hf.of_cause hc)
    have hsuppressed : (f.suppressed.map (rename ρ)).map (retarget (ρ old) (link.rename ρ)) =
        (f.suppressed.map (retarget old link)).map (rename ρ) := by
      rw [List.map_map, List.map_map]
      exact List.map_congr_left fun s hs => ihSuppressed s hs (hf.of_mem_suppressed hs)
    rw [retarget_eq, retarget_eq old link f, rename_eq, rename_eq, hsuppressed, hcause]

theorem replacement?_rename {f : Failure ι} (hf : f.NamesIn K) :
    (f.rename ρ).replacement? = f.replacement?.map (rename ρ) := by
  rw [replacement?, replacement?, source?_rename, Option.map_map, Option.map_map]
  cases hs : f.source? with
  | none => rfl
  | some c =>
    have hc := source?_eq_some_iff.1 hs
    have hreplaced : (c.rename ρ).retarget (f.rename ρ).id (c.rename ρ).link =
        (c.retarget f.id c.link).rename ρ := by
      rw [rename_id, link_rename]
      exact retarget_rename hρ hf.id_mem c.link (hf.of_cause hc)
    exact congrArg some hreplaced

end Failure

namespace Transform
open Failure

/-- Whether no rule of a transform looks at identities: the rules give the same answers for graphs
that differ in nothing else. -/
structure BlindToIds (t : Transform ι) : Prop where
  unwraps : ∀ rule ∈ t.unwraps, ∀ f g : Failure ι, f.alike g = true → rule f = rule g
  message : ∀ rule ∈ t.message, ∀ f g : Failure ι, f.alike g = true → rule f = rule g

namespace BlindToIds
variable {t : Transform ι} (ht : t.BlindToIds)
include ht

theorem unwrapsNode_rename (ρ : ι → ι) (f : Failure ι) :
    t.unwrapsNode (f.rename ρ) = t.unwrapsNode f := by
  refine unwrapsNode_congr ?_ fun rule hrule => ?_
  · rw [rename_cause, backRef?_renameCause, Option.isNone_map]
  · exact (ht.unwraps rule hrule f _ (alike_rename ρ f)).symm

theorem editNode_rename (ρ : ι → ι) (f : Failure ι) :
    t.editNode (f.rename ρ) = (t.editNode f).rename ρ := by
  have hframes : ({ f.rename ρ with frames := t.editFrames (f.rename ρ).frames } : Failure ι) =
      rename ρ { f with frames := t.editFrames f.frames } := by
    rw [rename_eq, rename_eq]
  rw [editNode, editNode, hframes]
  cases hmessage : t.message with
  | none => rfl
  | some rule =>
    have hsame := ht.message rule hmessage _ _
      (alike_rename ρ { f with frames := t.editFrames f.frames })
    simp only [← hsame]
    rw [rename_eq, rename_eq]

end BlindToIds

variable [DecidableEq ι] {t : Transform ι} {ρ : ι → ι} {K : Set ι}

theorem applyCause_rename {cause : Cause ι (Failure ι)}
    (h : ∀ c, cause = .owned c → t.apply (c.rename ρ) = (t.apply c).map (rename ρ)) :
    t.applyCause (renameCause ρ cause) = renameCause ρ (t.applyCause cause) := by
  cases cause with
  | none => rfl
  | owned c =>
    rw [renameCause, applyCause, h c rfl, applyCause]
    cases t.apply c <;> rfl
  | backRef link => rfl

/-- A failure with what is left of its cause uses no new identities. -/
theorem namesIn_applyCause {f : Failure ι} (hf : f.NamesIn K) :
    NamesIn K { f with cause := t.applyCause f.cause } := by
  refine namesIn_iff.2 ⟨hf.id_mem, ?_, ?_⟩
  · rw [backRef?_applyCause]
    exact (namesIn_iff.1 hf).2.1
  · intro d hd
    rcases mem_children.1 hd with hs | hd
    · exact hf.of_mem_suppressed hs
    · obtain ⟨c, hc, happly⟩ := applyCause_eq_owned_iff.1 hd
      exact (leaves_of_apply happly).namesIn (hf.of_cause hc)

section Step
variable (ht : t.BlindToIds) {f : Failure ι}
    (hchildren : ∀ c ∈ f.children, t.apply (c.rename ρ) = (t.apply c).map (rename ρ))
include hchildren

theorem rename_applyCause : ({ f.rename ρ with cause := t.applyCause (f.rename ρ).cause } :
    Failure ι) = rename ρ { f with cause := t.applyCause f.cause } := by
  have hcause := applyCause_rename fun c hc => hchildren c (mem_children.2 (.inr hc))
  rw [rename_cause, hcause, rename_eq, rename_eq]

include ht

theorem keep_rename : t.keep (f.rename ρ) = (t.keep f).rename ρ := by
  have hcause := applyCause_rename fun c hc => hchildren c (mem_children.2 (.inr hc))
  have hsuppressed : (f.suppressed.map (rename ρ)).filterMap t.apply =
      (f.suppressed.filterMap t.apply).map (rename ρ) := by
    rw [List.filterMap_map, List.map_filterMap]
    exact List.filterMap_congr fun s hs => hchildren s (mem_children.2 (.inl hs))
  rw [keep, keep, ← ht.editNode_rename, rename_suppressed, rename_cause, hsuppressed, hcause,
    rename_eq, rename_eq]

end Step

section Whole
variable (ht : t.BlindToIds) (hρ : Set.InjOn ρ K) {f : Failure ι} (hf : f.NamesIn K)
include ht hρ hf

theorem BlindToIds.apply_rename : t.apply (f.rename ρ) = (t.apply f).map (rename ρ) := by
  induction f using induct_children with
  | node f ih =>
    have hchildren (c : Failure ι) (hc : c ∈ f.children) := ih c hc (hf.of_mem_children hc)
    rw [apply_eq, apply_eq t f, rename_applyCause hchildren, ht.unwrapsNode_rename,
      replacement?_rename hρ (namesIn_applyCause hf), keep_rename ht hchildren]
    split <;> rfl

theorem BlindToIds.applyKeepingRoot_rename :
    t.applyKeepingRoot (f.rename ρ) = (t.applyKeepingRoot f).rename ρ := by
  have hchildren (c : Failure ι) (hc : c ∈ f.children) :=
    ht.apply_rename hρ (hf.of_mem_children hc)
  rw [applyKeepingRoot_eq, applyKeepingRoot_eq t f, rename_applyCause hchildren,
    ht.unwrapsNode_rename, replacement?_rename hρ (namesIn_applyCause hf), keep_rename ht hchildren]
  split
  · cases replacement? { f with cause := t.applyCause f.cause } <;> rfl
  · rfl

end Whole
end Transform

/-! ## Rules with a name -/

section Named
variable {f : Failure ι} {g : Failure κ} (h : f.alike g = true)
include h

theorem UnwrapRule.holds_eq_of_alike (rule : UnwrapRule) : rule.holds f = rule.holds g := by
  obtain ⟨htype, hmessage, hframes, horigin, hsuppressed, hcause⟩ := Failure.alike_iff.1 h
  cases rule with
  | always => rfl
  | never => rfl
  | typeIs name => rw [holds, holds, htype]
  | typeStarts start => rw [holds, holds, htype]
  | messageIncludes piece => rw [holds, holds, hmessage]
  | noMessage => rw [holds, holds, hmessage]
  | noFrames => rw [holds, holds, hframes]
  | noSuppressed =>
    rw [holds, holds, Bool.eq_iff_iff, List.isEmpty_iff_length_eq_zero,
      List.isEmpty_iff_length_eq_zero, Failure.length_eq_of_alikeIn hsuppressed]
  | noCause =>
    rw [holds, holds]
    cases hf : f.cause <;> cases hg : g.cause <;> simp_all [Failure.alikeCause, Cause.isNone]
  | causeTypeIs name =>
    rw [holds, holds, Failure.source?, Failure.source?]
    cases hf : f.cause <;> cases hg : g.cause <;>
      simp_all [Failure.alikeCause, Failure.alike_iff, Cause.owned?]
  | surrogate => rw [holds, holds, Failure.isSurrogate, Failure.isSurrogate, horigin]

theorem Failure.summary_eq_of_alike : f.summary = g.summary := by
  obtain ⟨htype, hmessage, hframes, horigin, hsuppressed, hcause⟩ := alike_iff.1 h
  rw [summary, summary, displayType, displayType, htype, hmessage, hframes, horigin,
    length_eq_of_alikeIn hsuppressed]
  cases hf : f.cause with
  | none => cases hg : g.cause <;> simp_all [alikeCause]
  | owned c =>
    cases hg : g.cause with
    | owned d =>
      rw [hf, hg, alikeCause] at hcause
      simp only [displayText_eq_of_alike hcause]
    | _ => simp [hf, hg, alikeCause] at hcause
  | backRef link => cases hg : g.cause <;> simp_all [alikeCause]

theorem MessageRule.messageOf_eq_of_alike (rule : MessageRule) :
    rule.messageOf f = rule.messageOf g := by
  obtain ⟨-, hmessage, -, -, -, -⟩ := Failure.alike_iff.1 h
  cases rule with
  | const message => rfl
  | append more => rw [messageOf, messageOf, hmessage]
  | upper => rw [messageOf, messageOf, hmessage]
  | clear => rfl
  | summary => rw [messageOf, messageOf, Failure.summary_eq_of_alike h]

end Named

namespace Transform.Builder

theorem blindToIds_call {b b' : Builder ι} (h : b.rules.BlindToIds) {c : NamedCall}
    (hcall : b.call c.toCall = .ok b') : b'.rules.BlindToIds := by
  unfold call at hcall
  split at hcall
  · cases hcall
  · cases c with
    | replaceMessage rule =>
      simp only [NamedCall.toCall] at hcall
      split at hcall
      · cases hcall
      · obtain rfl := Except.ok.inj hcall
        refine ⟨h.unwraps, ?_⟩
        rintro _ ⟨⟩ f g hfg
        exact rule.messageOf_eq_of_alike hfg
    | unwrapWhen rule =>
      obtain rfl := Except.ok.inj hcall
      refine ⟨?_, h.message⟩
      intro found hfound f g hfg
      rcases List.mem_append.1 hfound with hfound | hfound
      · exact h.unwraps found hfound f g hfg
      · obtain rfl := List.mem_singleton.1 hfound
        exact rule.holds_eq_of_alike hfg
    | editFrames rule =>
      obtain rfl := Except.ok.inj hcall
      exact ⟨h.unwraps, h.message⟩
    | mapFrames rule =>
      obtain rfl := Except.ok.inj hcall
      exact ⟨h.unwraps, h.message⟩
    | finish =>
      obtain rfl := Except.ok.inj hcall
      exact h

/-- No rule that has a name looks at identities. -/
theorem blindToIds_run {b : Builder ι} (h : b.rules.BlindToIds) (calls : List NamedCall) :
    (b.run (calls.map NamedCall.toCall)).2.rules.BlindToIds := by
  induction calls generalizing b with
  | nil => exact h
  | cons c calls ih =>
    rw [List.map_cons, run]
    cases hcall : b.call c.toCall with
    | error e => exact ih h
    | ok b' => exact ih (blindToIds_call h hcall)

theorem blindToIds_empty : (({} : Builder ι).rules).BlindToIds := ⟨by simp, by simp⟩

end Transform.Builder

/-- Other identities make no difference to the text that a graph is written as, to its events or to
what a transform does to it. They make none to what a search finds if the graph uses the identity
that is searched for, and for any other identity only if it is not given one that a failure has. -/
theorem rename_of_injOn [DecidableEq ι] {g : Failure ι} {ρ : ι → ι}
    (hρ : Set.InjOn ρ {i | i ∈ g.names}) :
    (∀ codec : Codec, codec.encode (g.rename ρ) = codec.encode g) ∧
      (∀ t : Transform ι, t.BlindToIds →
        t.apply (g.rename ρ) = (t.apply g).map (Failure.rename ρ) ∧
          t.applyKeepingRoot (g.rename ρ) = (t.applyKeepingRoot g).rename ρ) ∧
      (∀ i, (g.rename ρ).find? (ρ i) = (g.find? i).map (Failure.rename ρ) ↔
        i ∈ g.names ∨ ρ i ∉ (g.rename ρ).ids) ∧
      ∀ level options, (g.rename ρ).trace level options = g.trace level options := by
  have hnames := g.namesIn_names
  refine ⟨?_, ?_, fun i => Failure.find?_rename_iff hρ,
    fun level options => g.trace_rename ρ level options⟩
  · intro codec
    rw [Codec.encode, Codec.encode, Failure.print_eq_ofRows, Failure.print_eq_ofRows,
      Failure.rows_rename hρ hnames]
  · exact fun t ht => ⟨ht.apply_rename hρ hnames, ht.applyKeepingRoot_rename hρ hnames⟩

/-! One failure, and a replacement that gives every identity the one that this failure has. -/

def lone : Failure Nat := .ofType 0 ['A']

def merge (_ : Nat) : Nat := 0

theorem find?_merged : Set.InjOn merge {i | i ∈ lone.names} ∧
    (lone.rename merge).find? (merge 1) ≠ (lone.find? 1).map (Failure.rename merge) := by
  have hlone : lone.names = [0] := rfl
  refine ⟨?_, fun h => ?_⟩
  · intro i hi j hj _
    rw [hlone] at hi hj
    rw [List.mem_singleton.1 hi, List.mem_singleton.1 hj]
  · have hsame : some (lone.rename merge) = none := h
    cases hsame

/-! Two failures with one identity, a link that leads nowhere, and a replacement that is not
injective everywhere. -/

def sharedClone : Failure Nat := { Failure.ofType 3 ['S'] with cause := .backRef ⟨9, ['X']⟩ }

def sharedWrapper : Failure Nat :=
  { Failure.ofType 4 ['W'] with
    cause := .owned { Failure.ofType 5 ['C'] with cause := .backRef ⟨4, ['W']⟩ } }

def shared : Failure Nat :=
  { Failure.ofType 3 ['A'] with suppressed := [sharedClone], cause := .owned sharedWrapper }

def summarising : Transform Nat :=
  (Transform.Builder.run {} ([NamedCall.unwrapWhen (.typeIs ['W']),
    .replaceMessage .summary].map NamedCall.toCall)).2.rules

def scatter (i : Nat) : Nat := 2 * i % 11

theorem rename_shared :
    Set.InjOn scatter {i | i ∈ shared.names} ∧ scatter 0 = scatter 11 ∧ summarising.BlindToIds ∧
      (summarising.apply shared).map Failure.names = some [3, 3, 9, 5, 5] ∧
      Codec.encode {} (shared.rename scatter) = Codec.encode {} shared ∧
      summarising.apply (shared.rename scatter) =
        (summarising.apply shared).map (Failure.rename scatter) ∧
      summarising.applyKeepingRoot (shared.rename scatter) =
        (summarising.applyKeepingRoot shared).rename scatter ∧
      (shared.rename scatter).find? 8 = some (sharedWrapper.rename scatter) ∧
      (shared.rename scatter).trace .warn {} = shared.trace .warn {} := by
  have hscatter : Set.InjOn scatter {i | i ∈ shared.names} := by
    have hall : ∀ i ∈ shared.names, ∀ j ∈ shared.names, scatter i = scatter j → i = j := by decide
    exact fun i hi j hj => hall i hi j hj
  have hblind : summarising.BlindToIds :=
    Transform.Builder.blindToIds_run Transform.Builder.blindToIds_empty _
  obtain ⟨hencode, htransform, hfind, htrace⟩ := rename_of_injOn hscatter
  exact ⟨hscatter, rfl, hblind, rfl, hencode {}, (htransform _ hblind).1, (htransform _ hblind).2,
    (hfind 4).2 (.inl (by decide)), htrace .warn {}⟩

end Stacktrace
