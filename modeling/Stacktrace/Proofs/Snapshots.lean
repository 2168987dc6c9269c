import Stacktrace.Proofs.Survivors

/-!
# What links show after a transform

A link shows the display text that its target had when the link was made. A link that a transform
points elsewhere is made anew, from a failure whose message will not change again; any other link
stays as it is (`Leaves.link_kept_or_current`). So where every link showed the display text of its
target, a link that does not do so any more is one that stayed while a message rule changed the
message of its target (`linksShow_of_transformed`). There are such links (`not_upToDate_reworded`).
-/

namespace Stacktrace
variable {ι : Type}

namespace Failure

/-- Whether every link of a graph leads to its holder or to a failure above it, and shows the
display text which that failure has. -/
def UpToDate (f : Failure ι) : Prop :=
  ∀ p ∈ f.lineages, ∀ link ∈ p.node.cause.backRef?, ∃ target ∈ p.path, target.link = link

instance [DecidableEq ι] (f : Failure ι) : Decidable f.UpToDate :=
  inferInstanceAs (Decidable (∀ p ∈ f.lineages, ∀ link ∈ p.node.cause.backRef?,
    ∃ target ∈ p.path, target.link = link))

theorem UpToDate.anchored {f : Failure ι} (h : f.UpToDate) : f.Anchored := by
  intro p hp link hlink
  obtain ⟨target, htarget, rfl⟩ := h p hp link hlink
  exact List.mem_map_of_mem htarget

theorem UpToDate.exists_target {f holder : Failure ι} (h : f.UpToDate) (hholder : holder ∈ f.nodes)
    {link : BackRef ι} (hlink : link ∈ holder.cause.backRef?) :
    ∃ target ∈ f.nodes, target.link = link := by
  obtain ⟨v, hv, rfl⟩ := List.mem_map.1 hholder
  obtain ⟨p, hp, rfl⟩ := mem_walk_iff_exists_lineage.1 hv
  obtain ⟨target, htarget, hsame⟩ := h p hp link hlink
  exact ⟨target, mem_nodes_of_mem_path hp htarget, hsame⟩

theorem link_retarget [DecidableEq ι] (old : ι) (link : BackRef ι) (f : Failure ι) :
    (f.retarget old link).link = f.link := by
  cases f
  rfl

end Failure

namespace Transform
open Failure
variable {t : Transform ι}

theorem Remains.displayType_eq {before after : Failure ι} (h : t.Remains before after) :
    after.displayType = before.displayType := by
  rw [displayType, displayType, h.origin_eq, h.typeName_eq]

theorem Remains.displayText_eq {before after : Failure ι} (h : t.Remains before after)
    (hmessage : after.message = before.message) : after.displayText = before.displayText := by
  rw [displayText, displayText, hmessage, h.displayType_eq]

variable [DecidableEq ι]

/-- A link that is left was held by the same failure before, or shows what its target is now. -/
theorem Leaves.link_kept_or_current {f r n : Failure ι} (h : t.Leaves f r) (hn : n ∈ r.nodes)
    {link : BackRef ι} (hlink : link ∈ n.cause.backRef?) :
    (∃ holder ∈ f.nodes, holder.id = n.id ∧ link ∈ holder.cause.backRef?) ∨
      ∃ target ∈ r.nodes, target.link = link := by
  induction f using induct_children generalizing r n link with
  | node f ih =>
    cases h with
    | kept =>
      rcases mem_nodes.1 hn with rfl | ⟨d, hd, hn⟩
      · rw [keep_cause, backRef?_applyCause] at hlink
        exact .inl ⟨f, self_mem_nodes f, (keep_id t f).symm, hlink⟩
      · have hmem := hd
        rw [children_keep] at hd
        obtain ⟨c, hc, happly⟩ := List.mem_filterMap.1 hd
        rcases ih c hc (leaves_of_apply happly) hn hlink with ⟨holder, hholder, hheld⟩ |
          ⟨target, htarget, hsame⟩
        · exact .inl ⟨holder, nodes_subset_of_mem_children hc hholder, hheld⟩
        · exact .inr ⟨target, nodes_subset_of_mem_children hmem htarget, hsame⟩
    | @replaced c d hcause happly =>
      have hmem := mem_children.2 (.inr hcause)
      rw [nodes_retarget] at hn ⊢
      obtain ⟨m, hm, rfl⟩ := List.mem_map.1 hn
      rw [retarget_cause, backRef?_retargetCause, Option.mem_def, Option.map_eq_some_iff] at hlink
      obtain ⟨found, hfound, rfl⟩ := hlink
      split
      · exact .inr ⟨d.retarget f.id d.link, List.mem_map_of_mem (self_mem_nodes d),
          link_retarget f.id d.link d⟩
      · rcases ih c hmem (leaves_of_apply happly) hm hfound with ⟨holder, hholder, hid, hheld⟩ |
          ⟨target, htarget, hsame⟩
        · exact .inl ⟨holder, nodes_subset_of_mem_children hmem hholder,
            hid.trans (retarget_id f.id d.link m).symm, hheld⟩
        · exact .inr ⟨target.retarget f.id d.link, List.mem_map_of_mem htarget,
            (link_retarget f.id d.link target).trans hsame⟩

/-- Whether a link has stayed with its holder while its target got another message. -/
def Outdated (g holder target : Failure ι) (link : BackRef ι) : Prop :=
  (∃ held ∈ g.nodes, held.id = holder.id ∧ link ∈ held.cause.backRef?) ∧
    ∃ before ∈ g.nodes, before.link = link ∧ target.message ≠ before.message

theorem Leaves.exists_target {g r : Failure ι} (h : t.Leaves g r) (hids : g.ids.Nodup)
    (hg : g.UpToDate) {p : Lineage ι} (hp : p ∈ r.lineages) {link : BackRef ι}
    (hlink : link ∈ p.node.cause.backRef?) :
    ∃ target ∈ p.path, target.id = link.target ∧
      (target.link = link ∨ t.message.isSome = true ∧ Outdated g p.node target link) := by
  have hanchored := anchored_iff.2 (h.allLinksUpward (anchored_iff.1 hg.anchored))
  obtain ⟨target, htarget, hid⟩ := List.mem_map.1 (hanchored p hp link hlink)
  have hmem := mem_nodes_of_mem_path hp htarget
  refine ⟨target, htarget, hid, ?_⟩
  have hnode := mem_nodes_of_mem_path hp List.mem_cons_self
  rcases h.link_kept_or_current hnode hlink with ⟨holder, hholder, hheld⟩ | ⟨other, hother, rfl⟩
  · obtain ⟨before, hbefore, rfl⟩ := hg.exists_target hholder hheld.2
    obtain ⟨same, hsame, hremains⟩ := h.exists_node hmem
    obtain rfl := List.inj_on_of_nodup_map hids hsame hbefore (hremains.id_eq.symm.trans hid)
    by_cases hmessage : target.message = same.message
    · refine .inl ?_
      rw [link, link, hremains.id_eq, hremains.displayText_eq hmessage]
    · refine .inr ⟨?_, ⟨holder, hholder, hheld⟩, same, hsame, rfl, hmessage⟩
      exact Option.isSome_iff_ne_none.2 fun hnone => hmessage (hremains.message_eq hnone)
  · exact .inl (by rw [List.inj_on_of_nodup_map (hids.sublist h.ids_sublist) hmem hother hid])

theorem Leaves.upToDate {g r : Failure ι} (h : t.Leaves g r) (hids : g.ids.Nodup) (hg : g.UpToDate)
    (hmessage : t.message = none) : r.UpToDate := by
  intro p hp link hlink
  obtain ⟨target, htarget, -, hcurrent | ⟨hsome, -⟩⟩ := h.exists_target hids hg hp hlink
  · exact ⟨target, htarget, hcurrent⟩
  · rw [hmessage] at hsome
    cases hsome

/-- Whether every link of `r` shows the display text of what it leads to there, its holder or a
failure above it, except for links out of `g` whose target got another message from a message
rule. -/
def LinksShow (t : Transform ι) (g r : Failure ι) : Prop :=
  ∀ p ∈ r.lineages, ∀ link ∈ p.node.cause.backRef?, ∃ target ∈ p.path,
    r.resolve? link = some target ∧
      (target.link = link ∨ t.message.isSome = true ∧ Outdated g p.node target link)

/-- Only a message rule leaves links that do not show what their targets are, and those only where
it changed the message of a failure that they led to all along. -/
theorem linksShow_of_transformed {g r : Failure ι} (hids : g.ids.Nodup) (hg : g.UpToDate)
    (hr : t.apply g = some r ∨ t.applyKeepingRoot g = r) : LinksShow t g r := by
  intro p hp link hlink
  have hleaves := leaves_of_transformed hr
  obtain ⟨target, htarget, hid, hshows⟩ := hleaves.exists_target hids hg hp hlink
  refine ⟨target, htarget, ?_, hshows⟩
  rw [resolve?, ← hid]
  exact find?_of_mem_nodes (hids.sublist hleaves.ids_sublist) (mem_nodes_of_mem_path hp htarget)

/-! Of the links in `named`, one leads to the root, and the other to a wrapper around `leaf`. -/

def leaf : Failure Nat := { ofType 3 ['L'] with cause := .backRef ⟨0, "T: old".toList⟩ }

def named : Failure Nat :=
  let beside := { ofType 2 ['B'] with cause := .backRef ⟨1, ['W']⟩ }
  let wrapper := { ofType 1 ['W'] with cause := .owned { leaf with suppressed := [beside] } }
  { ofType 0 ['T'] with message := some "old".toList, cause := .owned wrapper }

def reworded : Failure Nat :=
  let beside := { ofType 2 ['B'] with
    message := some "new".toList, cause := .backRef ⟨3, "L: new".toList⟩ }
  { ofType 0 ['T'] with
    message := some "new".toList
    cause := .owned { leaf with message := some "new".toList, suppressed := [beside] } }

def rewording : Transform Nat :=
  { unwraps := [fun f => f.typeName = ['W']], message := some fun _ => some "new".toList }

/-- A link that stays goes on showing the message that a message rule has replaced. -/
theorem not_upToDate_reworded : named.ids.Nodup ∧ named.UpToDate ∧
    rewording.apply named = some reworded ∧ rewording.applyKeepingRoot named = reworded ∧
      ¬ reworded.UpToDate :=
  ⟨by decide, by decide, rfl, rfl, by decide⟩

theorem linksShow_reworded : named.ids.Nodup ∧ named.UpToDate ∧
    rewording.apply named = some reworded ∧ LinksShow rewording named reworded :=
  have happly : rewording.apply named = some reworded := rfl
  ⟨by decide, by decide, happly, linksShow_of_transformed (by decide) (by decide) (.inl happly)⟩

end Transform
end Stacktrace
