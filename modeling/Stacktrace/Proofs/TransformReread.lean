import Stacktrace.Proofs.Elisions
import Stacktrace.Proofs.Snapshots

/-!
# Reading transformed graphs again

A transform that changes no message, and frames only in that it leaves them out or moves them, keeps
graphs such that they can be read again (`decodeFrom_encode_of_transformed`). All that is left is
written at the depth where it was, so it is as legible as before (`Remains.legible`), and every link
that is left shows the display text of a failure on the way to its holder (`Leaves.upToDate`).
-/

namespace Stacktrace
variable {ι : Type}

namespace Transform
open Failure

/-- Whether a transform changes no message, and only has such rules for frames as choose among
them. -/
structure Selects (t : Transform ι) : Prop where
  message : t.message = none
  frameLists : ∀ rule ∈ t.frameLists, ∀ frames, rule frames ⊆ frames
  frames : ∀ rule ∈ t.frames, ∀ frame, ∀ chosen ∈ rule frame, chosen = frame

theorem foldl_rules_subset {rules : List (List Frame → List Frame)}
    (h : ∀ rule ∈ rules, ∀ frames, rule frames ⊆ frames) (frames : List Frame) :
    rules.foldl (fun frames rule => rule frames) frames ⊆ frames := by
  induction rules generalizing frames with
  | nil => exact List.Subset.refl frames
  | cons rule rules ih =>
    obtain ⟨hrule, hrules⟩ := List.forall_mem_cons.1 h
    exact List.Subset.trans (ih hrules (rule frames)) (hrule frames)

theorem eq_of_foldlM_rules {rules : List (Frame → Option Frame)}
    (h : ∀ rule ∈ rules, ∀ frame, ∀ chosen ∈ rule frame, chosen = frame) {frame chosen : Frame}
    (hchosen : rules.foldlM (fun frame rule => rule frame) frame = some chosen) :
    chosen = frame := by
  induction rules generalizing frame with
  | nil => exact (Option.some.inj hchosen).symm
  | cons rule rules ih =>
    obtain ⟨hrule, hrules⟩ := List.forall_mem_cons.1 h
    obtain ⟨next, hnext, hchosen⟩ := Option.bind_eq_some_iff.1 hchosen
    rw [ih hrules hchosen, hrule frame next hnext]

theorem Selects.editFrames_subset {t : Transform ι} (h : t.Selects) (frames : List Frame) :
    t.editFrames frames ⊆ frames := by
  intro frame hframe
  rw [editFrames_eq_filterMap] at hframe
  obtain ⟨before, hbefore, hedit⟩ := List.mem_filterMap.1 hframe
  rw [eq_of_foldlM_rules h.frames hedit]
  exact foldl_rules_subset h.frameLists frames hbefore

theorem Remains.legible {t : Transform ι} {before after : Failure ι} (h : t.Remains before after)
    (hselects : t.Selects) {codec : Codec} {depth : Nat} (hbefore : before.Legible codec depth) :
    after.Legible codec depth where
  origin := by
    rw [h.origin_eq, h.typeName_eq]
    exact hbefore.origin
  type_plain := by
    rw [h.displayType_eq]
    exact hbefore.type_plain
  type_whole := by
    rw [h.displayType_eq]
    exact hbefore.type_whole
  message := by
    rw [h.message_eq hselects.message]
    exact hbefore.message
  frames frame hframe := by
    rw [h.frames_eq] at hframe
    exact hbefore.frames frame (hselects.editFrames_subset before.frames hframe)

end Transform

variable [DecidableEq ι]

/-- A graph that can be read again can be read again once it has been transformed. -/
theorem decodeFrom_encode_of_transformed {codec : Codec} {t : Transform ι} {g r : Failure ι}
    (hterminator : codec.config.terminator.EndsLine) (hids : g.ids.Nodup)
    (hnonempty : ∀ f ∈ g.nodes, f.displayText ≠ [])
    (hlegible : ∀ p ∈ g.lineages, p.node.Legible codec p.depth) (hlinks : g.UpToDate)
    (hlines : ∀ f ∈ g.nodes,
      f.displayText.includes (Mark.circularClose ++ codec.config.terminator) = false)
    (hselects : t.Selects) (hr : t.apply g = some r ∨ t.applyKeepingRoot g = r) (first : Nat) :
    ∃ again, codec.decodeFrom first (codec.encode r) = .ok again ∧ r.alike again = true := by
  have hleaves := Transform.leaves_of_transformed hr
  have hdisplay {n : Failure ι} (hn : n ∈ r.nodes) :
      ∃ m ∈ g.nodes, n.displayText = m.displayText := by
    obtain ⟨m, hm, hremains⟩ := hleaves.exists_node hn
    exact ⟨m, hm, hremains.displayText_eq (hremains.message_eq hselects.message)⟩
  have hroot : r.displayText ≠ [] := by
    obtain ⟨m, hm, hsame⟩ := hdisplay (Failure.self_mem_nodes r)
    rw [hsame]
    exact hnonempty m hm
  have hleft : ∀ p ∈ r.lineages, p.node.Legible codec p.depth := by
    intro p hp
    obtain ⟨q, hq, hdepth, hremains⟩ := hleaves.exists_lineage hp
    rw [← hdepth]
    exact hremains.legible hselects (hlegible q hq)
  have hplainly : ∀ p ∈ r.lineages, p.LinksPlainly codec.config.terminator := by
    intro p hp
    refine Lineage.linksPlainly_of_includes_eq_false hp
      (hleaves.upToDate hids hlinks hselects.message p hp) ?_
    intro n hn
    obtain ⟨m, hm, hsame⟩ := hdisplay hn
    rw [hsame]
    exact hlines m hm
  have hreadable : r.Readable codec (fun _ => none) 0 [] :=
    Failure.readable_of_lineages (hids.sublist hleaves.ids_sublist) hleft hplainly
      fun p _ e he => by cases he
  obtain ⟨again, hdecode, halike⟩ := decodeFrom_abridged hterminator hroot hreadable first
  rw [Failure.abridged_none] at hdecode
  exact ⟨again, hdecode, halike⟩

/-! A wrapper with a link to it further down, which leads to what it wrapped when it is gone. -/

namespace Wrapping
open Sharing (call)

def native : Frame := ⟨"p.Q".toList, "wait".toList, none, .native⟩

def inner : Failure Nat :=
  { Failure.ofType 2 ['I'] with
    message := some "x\ny]".toList
    frames := [call "get", native, call "put"]
    suppressed := [{ Failure.ofType 3 ['B'] with cause := .backRef ⟨0, ['T']⟩ }]
    cause := .backRef ⟨1, ['W']⟩ }

def outer : Failure Nat :=
  { Failure.ofType 0 ['T'] with
    frames := [native]
    cause := .owned { Failure.ofType 1 ['W'] with cause := .owned inner } }

def choosing : Transform Nat :=
  { unwraps := [fun f => f.typeName = ['W']]
    frameLists := [List.reverse]
    frames := [fun frame => if frame.isNative then none else some frame] }

def left : Failure Nat :=
  { Failure.ofType 0 ['T'] with
    cause := .owned { inner with
      frames := [call "put", call "get"], cause := .backRef ⟨2, "I: x\ny]".toList⟩ } }

theorem decodeFrom_encode_left : choosing.apply outer = some left ∧ ∃ again,
    Codec.decodeFrom {} 0 (Codec.encode {} left) = .ok again ∧ left.alike again = true := by
  have happly : choosing.apply outer = some left := rfl
  have hselects : choosing.Selects := by
    refine ⟨rfl, ?_, ?_⟩
    · simp [choosing, List.subset_def]
    · simp +contextual [choosing]
  have hlegible : ∀ p ∈ outer.lineages, p.node.Legible {} p.depth := by
    have hinner : inner.Legible {} 0 := by
      refine ⟨.inl ⟨rfl, rfl, fun h => absurd rfl h⟩, by decide, by decide, ?_, by decide⟩
      intro text htext
      exact ⟨['x'], ["y]".toList], by simpa [inner] using htext.symm, by decide, by decide⟩
    have hlineages : outer.lineages.map (fun p => (p.depth, p.node)) =
        [(0, outer), (0, { Failure.ofType 1 ['W'] with cause := .owned inner }), (0, inner),
          (1, { Failure.ofType 3 ['B'] with cause := .backRef ⟨0, ['T']⟩ })] := rfl
    have hall : ∀ v ∈ outer.lineages.map (fun p => (p.depth, p.node)), v.2.Legible {} v.1 := by
      rw [hlineages]
      simp only [List.forall_mem_cons]
      refine ⟨?_, ?_, hinner, ?_, by simp⟩ <;>
        exact ⟨.inl ⟨rfl, rfl, fun h => absurd rfl h⟩, by decide, by decide,
          fun _ h => (by cases h), by decide⟩
    exact fun p hp => hall _ (List.mem_map_of_mem hp)
  exact ⟨happly, decodeFrom_encode_of_transformed (.inl rfl) (by decide) (by decide) hlegible
    (by decide) (by decide) hselects (.inl happly) 0⟩

end Wrapping
end Stacktrace
