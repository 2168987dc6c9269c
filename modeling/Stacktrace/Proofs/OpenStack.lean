import Stacktrace.Proofs.Lineage
import Stacktrace.Proofs.ParserSteps

/-!
# The failures that are being read

The open failures of a parser state are a path of the graph that is being read. `OpenFailure.Sound`
says of each of them how far it has been read, how it stands to the one above it and that the links
below it name what they lead to; `ParserState.Sound` adds that the identities given so far stand in
the order of the walk. Both are kept by every line (`sound_invariant`).
-/

namespace Stacktrace

def scopeOf (outer : List OpenFailure) : Scope Nat := outer.map (·.node.scopeEntry)

/-- Whether the link of a failure, if it has one, leads to the innermost failure in scope that has
its display text, and to the failure itself only when there is none. -/
def Failure.Named {ι : Type} (scope : Scope ι) (f : Failure ι) : Prop :=
  ∀ link ∈ f.cause.backRef?,
    (scope ++ [f.scopeEntry]).find? (·.2 = link.display) = some (link.target, link.display)

namespace OpenFailure

/-- How an open failure stands to those above it. -/
def Position (f : OpenFailure) : List OpenFailure → Prop
  | [] => f.visit.relation = .root ∧ f.depth = 0
  | parent :: _ => parent.phase.takesRelations = true ∧
    (f.visit.relation = .suppressed ∧ f.depth = parent.depth + 1 ∨
      f.visit.relation = .cause ∧ f.depth = parent.depth)

structure Sound (f : OpenFailure) (outer : List OpenFailure) : Prop where
  cause_eq_none (incomplete : f.phase ≠ .complete) : f.node.cause = .none
  suppressed_eq_nil (early : f.phase.takesFrames = true) : f.node.suppressed = []
  frames_eq_nil (first : f.phase = .message) : f.node.frames = []
  position : f.Position outer
  links : f.node.All Failure.scopeEntry (fun _ => Failure.Named) f.depth (scopeOf outer)

theorem named_of_backRef?_eq_none {scope : Scope Nat} {f : Failure Nat}
    (h : f.cause.backRef? = none) : f.Named scope := by
  intro link hlink
  simp [h] at hlink

theorem sound_ofHeader (codec : Codec) {depth : Nat} {relation : Relation} (id : Nat) (header : Text)
    {outer : List OpenFailure}
    (hposition : (ofHeader codec depth relation id header).Position outer) :
    (ofHeader codec depth relation id header).Sound outer where
  cause_eq_none _ := rfl
  suppressed_eq_nil _ := rfl
  frames_eq_nil _ := rfl
  position := hposition
  links := Failure.all_of_bare (fun _ => named_of_backRef?_eq_none) rfl rfl

@[simp]
theorem scopeEntry_attach (parent child : OpenFailure) :
    (parent.attach child).node.scopeEntry = parent.node.scopeEntry := by
  rw [attach]
  split <;> rfl

/-- What hangs off a failure to which another has been added is what hung off it and what hangs off
the other. -/
theorem all_attach {α : Type} {entry : Failure Nat → α} {P : List α → Failure Nat → Prop}
    {above : List α} {parent child : OpenFailure} (hP : ∀ n, n.cause.backRef? = none → P above n)
    (hentry : entry (parent.attach child).node = entry parent.node)
    (hcause : parent.node.cause = .none)
    (hposition : child.visit.relation = .suppressed ∧ child.depth = parent.depth + 1 ∨
      child.visit.relation = .cause ∧ child.depth = parent.depth) :
    (parent.attach child).node.All entry (fun _ => P) parent.depth above ↔
      parent.node.All entry (fun _ => P) parent.depth above ∧
        child.node.All entry (fun _ => P) child.depth (entry parent.node :: above) := by
  have hparent := hP parent.node (by rw [hcause]; rfl)
  rw [Failure.all_iff, Failure.all_iff (f := parent.node), hentry]
  rcases hposition with ⟨hrelation, hdepth⟩ | ⟨hrelation, hdepth⟩
  · rw [attach_eq_of_suppressed hrelation]
    simp only [update_node, hcause, reduceCtorEq, false_implies, implies_true, and_true,
      List.forall_mem_append, List.forall_mem_singleton, hdepth]
    exact ⟨fun h => ⟨⟨hparent, h.2.1⟩, h.2.2⟩, fun h => ⟨hP _ rfl, h.1.2, h.2⟩⟩
  · rw [attach_eq_of_cause hrelation]
    simp only [setCause, update_node, hcause, reduceCtorEq, false_implies, implies_true, and_true,
      Cause.owned.injEq, forall_eq', hdepth]
    exact ⟨fun h => ⟨⟨hparent, h.2.1⟩, h.2.2⟩, fun h => ⟨hP _ rfl, h.1.2, h.2⟩⟩

namespace Sound
variable {f : OpenFailure} {outer : List OpenFailure}

theorem ne_complete_of_takesRelations (h : f.phase.takesRelations = true) : f.phase ≠ .complete := by
  intro hcomplete
  simp [hcomplete, Phase.takesRelations] at h

theorem ne_complete_of_takesFrames (h : f.phase.takesFrames = true) : f.phase ≠ .complete := by
  intro hcomplete
  simp [hcomplete, Phase.takesFrames] at h

theorem goOn (h : f.Sound outer) (codec : Codec) (hphase : f.phase = .message)
    (message text : Text) : (f.goOn codec message text).Sound outer where
  cause_eq_none _ := h.cause_eq_none (by simp [hphase])
  suppressed_eq_nil _ := h.suppressed_eq_nil (by simp [hphase, Phase.takesFrames])
  frames_eq_nil _ := h.frames_eq_nil hphase
  position := by cases outer <;> exact h.position
  links := Failure.all_of_bare (fun _ => named_of_backRef?_eq_none)
    (h.cause_eq_none (by simp [hphase]))
    (h.suppressed_eq_nil (by simp [hphase, Phase.takesFrames]))

theorem addFrames (h : f.Sound outer) (hphase : f.phase.takesFrames = true) (frames : List Frame)
    {phase : Phase} (hnew : phase ≠ .message) : (f.addFrames frames phase).Sound outer where
  cause_eq_none _ := h.cause_eq_none (ne_complete_of_takesFrames hphase)
  suppressed_eq_nil _ := h.suppressed_eq_nil hphase
  frames_eq_nil hmessage := absurd hmessage hnew
  position := by cases outer <;> exact h.position
  links := Failure.all_of_bare (fun _ => named_of_backRef?_eq_none)
    (h.cause_eq_none (ne_complete_of_takesFrames hphase)) (h.suppressed_eq_nil hphase)

theorem setPhase (h : f.Sound outer) (hphase : f.phase ≠ .complete) (pending : PendingReference) :
    ({ f with phase := .circular pending } : OpenFailure).Sound outer where
  cause_eq_none _ := h.cause_eq_none hphase
  suppressed_eq_nil early := by simp [Phase.takesFrames] at early
  frames_eq_nil first := by simp at first
  position := by cases outer <;> exact h.position
  links := h.links

theorem attach {parent child : OpenFailure} (hchild : child.Sound (parent :: outer))
    (hparent : parent.Sound outer) : (parent.attach child).Sound outer := by
  obtain ⟨hrelations, hposition⟩ := hchild.position
  have hcause := hparent.cause_eq_none (ne_complete_of_takesRelations hrelations)
  have hlinks := (all_attach (fun _ => named_of_backRef?_eq_none) (scopeEntry_attach parent child)
    hcause hposition).2 ⟨hparent.links, hchild.links⟩
  rcases hposition with ⟨hrelation, -⟩ | ⟨hrelation, -⟩
  · rw [attach_eq_of_suppressed hrelation] at hlinks ⊢
    exact {
      cause_eq_none := fun _ => hcause
      suppressed_eq_nil := fun early => by simp [Phase.takesFrames] at early
      frames_eq_nil := fun first => by simp at first
      position := by cases outer <;> exact hparent.position
      links := hlinks }
  · rw [attach_eq_of_cause hrelation] at hlinks ⊢
    exact {
      cause_eq_none := fun incomplete => absurd rfl incomplete
      suppressed_eq_nil := fun early => by simp [setCause, Phase.takesFrames] at early
      frames_eq_nil := fun first => by simp [setCause] at first
      position := by cases outer <;> exact hparent.position
      links := hlinks }

theorem setBackRef (h : f.Sound outer) {link : BackRef Nat}
    (hlink : (scopeOf outer ++ [f.node.scopeEntry]).find? (·.2 = link.display) =
      some (link.target, link.display)) : (f.setCause (.backRef link)).Sound outer where
  cause_eq_none incomplete := absurd rfl incomplete
  suppressed_eq_nil early := by simp [setCause, Phase.takesFrames] at early
  frames_eq_nil first := by simp [setCause] at first
  position := by cases outer <;> exact h.position
  links := by
    obtain ⟨-, suppressed, -⟩ := Failure.all_iff.1 h.links
    refine Failure.all_iff.2 ⟨?_, suppressed, ?_⟩
    · intro found hfound
      simp only [setCause, update_node, Cause.backRef?, Option.mem_some_iff] at hfound
      rw [← hfound]
      exact hlink
    · intro c hc
      simp [setCause] at hc

end Sound

theorem children_attach {parent child : OpenFailure} (h : parent.node.cause = .none) :
    (parent.attach child).node.children = parent.node.children ++ [child.node] := by
  rw [attach]
  split
  · simp [Failure.children, Failure.source?, h, Cause.owned?]
  · simp [Failure.children, Failure.source?, h, setCause, Cause.owned?]

theorem ids_attach {parent child : OpenFailure} (h : parent.node.cause = .none) :
    (parent.attach child).node.ids = parent.node.ids ++ child.node.ids := by
  have hid : (parent.attach child).node.id = parent.node.id :=
    congrArg Prod.fst (scopeEntry_attach parent child)
  rw [Failure.ids_eq_cons, Failure.ids_eq_cons parent.node, children_attach h, hid,
    List.flatMap_append, List.flatMap_singleton, List.cons_append]

theorem ids_setBackRef {f : OpenFailure} (h : f.node.cause = .none) (link : BackRef Nat) :
    (f.setCause (.backRef link)).node.ids = f.node.ids := by
  rw [Failure.ids_eq_cons, Failure.ids_eq_cons f.node]
  simp [Failure.children, Failure.source?, h, setCause, Cause.owned?]

end OpenFailure

namespace ParserState

/-- A property of an open failure and those above it that every failure of a stack has. -/
def Stacked (P : OpenFailure → List OpenFailure → Prop) : List OpenFailure → Prop
  | [] => True
  | f :: outer => P f outer ∧ Stacked P outer

/-- The identities in the graph that is being read, in the order of the walk. -/
def idsOf : List OpenFailure → List Nat
  | [] => []
  | f :: outer => idsOf outer ++ f.node.ids

structure Sound (first : Nat) (s : ParserState) : Prop where
  stack : Stacked OpenFailure.Sound (s.current :: s.parents)
  ids : ∃ n, s.next = first + n ∧ idsOf (s.current :: s.parents) = List.range' first n

theorem ids_scopeOf_sublist (stack : List OpenFailure) :
    ((scopeOf stack).map Prod.fst).reverse.Sublist (idsOf stack) := by
  induction stack with
  | nil => exact List.Sublist.refl []
  | cons f outer ih =>
    change (f.node.id :: (scopeOf outer).map Prod.fst).reverse.Sublist (idsOf outer ++ f.node.ids)
    rw [List.reverse_cons]
    exact ih.append (List.singleton_sublist.2 f.node.id_mem_ids)

theorem Sound.scope_nodup {first : Nat} {s : ParserState} (h : s.Sound first) :
    ((scopeOf (s.current :: s.parents)).map Prod.fst).Nodup := by
  obtain ⟨n, -, hids⟩ := h.ids
  have hnodup : (idsOf (s.current :: s.parents)).Nodup := hids ▸ List.nodup_range'
  exact List.nodup_reverse.1 (hnodup.sublist (ids_scopeOf_sublist _))

theorem find?_scope_of_target? {s : ParserState} {display : Text} {f : Failure Nat}
    (h : s.target? display = some f) :
    (scopeOf s.parents ++ [s.current.node.scopeEntry]).find? (·.2 = f.displayText) =
      some (f.id, f.displayText) := by
  have hdisplay : f.displayText = display := by
    simpa using List.find?_some h
  have hscope : scopeOf s.parents ++ [s.current.node.scopeEntry] =
      ((s.parents ++ [s.current]).map OpenFailure.node).map Failure.scopeEntry := by
    simp [scopeOf]
  rw [hscope, List.find?_map, hdisplay]
  change (((s.parents ++ [s.current]).map OpenFailure.node).find? (·.displayText = display)).map
    Failure.scopeEntry = _
  rw [← target?, h, Option.map_some, Failure.scopeEntry, hdisplay]

theorem ids_ofHeader (codec : Codec) (depth : Nat) (relation : Relation) (id : Nat) (header : Text) :
    (OpenFailure.ofHeader codec depth relation id header).node.ids = [id] := by
  rw [Failure.ids_eq_cons]
  rfl

theorem Sound.descend {first : Nat} {s : ParserState} (h : s.Sound first) (codec : Codec)
    {depth : Nat} {relation : Relation} (header : Text)
    (hrelations : s.current.phase.takesRelations = true)
    (hposition : relation = .suppressed ∧ depth = s.current.depth + 1 ∨
      relation = .cause ∧ depth = s.current.depth) :
    (s.descend codec depth relation header).Sound first where
  stack := ⟨OpenFailure.sound_ofHeader codec s.next header ⟨hrelations, hposition⟩, h.stack⟩
  ids := by
    obtain ⟨n, hnext, hids⟩ := h.ids
    refine ⟨n + 1, by simp [ParserState.descend, hnext, Nat.add_assoc], ?_⟩
    change idsOf (s.current :: s.parents) ++
      (OpenFailure.ofHeader codec depth relation s.next header).node.ids = _
    rw [hids, ids_ofHeader, hnext, List.range'_concat, Nat.one_mul]

theorem Sound.update {first : Nat} {s : ParserState} (h : s.Sound first) {f : OpenFailure}
    (hf : f.Sound s.parents) (hids : f.node.ids = s.current.node.ids) :
    ({ s with current := f } : ParserState).Sound first where
  stack := ⟨hf, h.stack.2⟩
  ids := by
    obtain ⟨n, hnext, hn⟩ := h.ids
    refine ⟨n, hnext, ?_⟩
    rw [idsOf] at hn ⊢
    rw [hids]
    exact hn

theorem Sound.refer {first : Nat} {s : ParserState} (h : s.Sound first)
    (hphase : s.current.phase ≠ .complete) (pending : PendingReference) :
    (s.refer pending).Sound first := by
  rcases refer_cases s pending with ⟨still, -, hrefer⟩ | ⟨display, f, -, hf, hrefer⟩
  · rw [hrefer]
    exact h.update (h.stack.1.setPhase hphase still) rfl
  · rw [hrefer]
    exact h.update (h.stack.1.setBackRef (find?_scope_of_target? hf))
      (OpenFailure.ids_setBackRef (h.stack.1.cause_eq_none hphase) _)

theorem Sound.takes {codec : Codec} {line first : Nat} {text : Text} {s s' : ParserState}
    (h : s.Sound first) (htakes : Takes codec line text s s') : s'.Sound first := by
  cases htakes with
  | message hphase hmessage =>
    refine h.update (h.stack.1.goOn codec hphase _ text) ?_
    rw [Failure.ids_eq_cons, Failure.ids_eq_cons s.current.node]
    rfl
  | frame hphase =>
    refine h.update (h.stack.1.addFrames hphase _ (by simp)) ?_
    rw [Failure.ids_eq_cons, Failure.ids_eq_cons s.current.node]
    rfl
  | elision hphase =>
    refine h.update (h.stack.1.addFrames hphase _ (by simp)) ?_
    rw [Failure.ids_eq_cons, Failure.ids_eq_cons s.current.node]
    rfl
  | suppressed hphase => exact h.descend codec _ hphase (.inl ⟨rfl, rfl⟩)
  | causedBy hphase => exact h.descend codec _ hphase (.inr ⟨rfl, rfl⟩)
  | circular hphase =>
    exact h.refer (OpenFailure.Sound.ne_complete_of_takesRelations hphase) _
  | continued hphase => exact h.refer (by simp [hphase]) _

theorem Sound.attach {first next : Nat} {child parent : OpenFailure} {outer : List OpenFailure}
    (h : Sound first ⟨child, parent :: outer, next⟩) :
    Sound first ⟨parent.attach child, outer, next⟩ where
  stack := ⟨h.stack.1.attach h.stack.2.1, h.stack.2.2⟩
  ids := by
    obtain ⟨n, hnext, hids⟩ := h.ids
    refine ⟨n, hnext, ?_⟩
    -- as the parent has no cause yet, the child comes last in its walk
    have hrelations := h.stack.1.position.1
    have hcause := h.stack.2.1.cause_eq_none
      (OpenFailure.Sound.ne_complete_of_takesRelations hrelations)
    simp only [idsOf, OpenFailure.ids_attach hcause] at hids ⊢
    rw [← List.append_assoc, hids]

theorem sound_start (codec : Codec) (first : Nat) (header : Text) :
    Sound first ⟨.ofHeader codec 0 .root first header, [], first + 1⟩ where
  stack := ⟨OpenFailure.sound_ofHeader codec first header ⟨rfl, rfl⟩, trivial⟩
  ids := ⟨1, rfl, by simp only [idsOf, ids_ofHeader]; rfl⟩

theorem sound_invariant (codec : Codec) (first : Nat) :
    Invariant codec first fun _ s => s.Sound first where
  start header _ := sound_start codec first header
  attach _ h := h.attach
  takes htakes h := h.takes htakes

end ParserState
end Stacktrace
