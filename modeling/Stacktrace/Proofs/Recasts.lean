import Mathlib.Data.List.Find
import Stacktrace.Proofs.ParserSteps

/-!
# Readers that do the same with a line

A recast changes identities, origins and causes all over a graph, and nothing else of it. A reader
fits another one under a recast if it reads each header as the recast of what the other reads, and
if no failure that a circular reference is compared with changes its display text to or from the one
that is shown. What it reads from some lines is then the recast of what the other reads from them,
or both fail in the same way (`Codec.ofLines_recast`).
-/

namespace Stacktrace

structure Recast where
  node : Failure Nat → Failure Nat
  cause : Cause Nat (Failure Nat) → Cause Nat (Failure Nat)
  id : Nat → Nat
  origin : Text → Origin → Origin
  node_eq (f : Failure Nat) : node f =
    ⟨id f.id, f.typeName, f.message, f.frames, origin f.typeName f.origin, f.suppressed.map node,
      cause f.cause⟩
  cause_owned (f : Failure Nat) : cause (.owned f) = .owned (node f)
  cause_backRef (link : BackRef Nat) :
    cause (.backRef link) = .backRef ⟨id link.target, link.display⟩

namespace OpenFailure

def recast (r : Recast) (f : OpenFailure) : OpenFailure := f.update (r.node f.node) f.phase

variable (r : Recast)

theorem recast_setCause (f : OpenFailure) (cause : Cause Nat (Failure Nat)) :
    (f.setCause cause).recast r = (f.recast r).setCause (r.cause cause) := by
  simp only [recast, setCause, update_node, update_phase, r.node_eq]
  rfl

theorem recast_addFrames (f : OpenFailure) (frames : List Frame) (phase : Phase) :
    (f.addFrames frames phase).recast r = (f.recast r).addFrames frames phase := by
  simp only [recast, addFrames, update_node, update_phase, r.node_eq]
  rfl

theorem recast_attach (parent child : OpenFailure) :
    (parent.attach child).recast r = (parent.recast r).attach (child.recast r) := by
  have hrelation : (child.recast r).visit.relation = child.visit.relation := rfl
  rw [attach, attach, hrelation]
  split
  · simp only [recast, update_node, update_phase, r.node_eq, List.map_append, List.map_singleton]
    rfl
  · rw [recast_setCause, r.cause_owned]
    rfl

theorem frames_recast (f : OpenFailure) : (f.recast r).node.frames = f.node.frames := by
  rw [recast, update_node, r.node_eq]

theorem continueMessage?_recast {codec codec' : Codec} (hconfig : codec'.config = codec.config)
    (f : OpenFailure) (line : Text) : (f.recast r).continueMessage? codec' line =
      (f.continueMessage? codec line).map (recast r) := by
  have hphase : (f.recast r).phase = f.phase := rfl
  have hdepth : (f.recast r).depth = f.depth := rfl
  have hmessage : (f.recast r).node.message = f.node.message := by
    rw [recast, update_node, r.node_eq]
  rw [continueMessage?, continueMessage?, hphase, hmessage, hconfig]
  split
  · rw [hdepth, apply_ite (Option.map _), Option.map_none, Option.map_some]
    simp only [recast, update_node, update_phase, r.node_eq]
    rfl
  · rfl

end OpenFailure

namespace ParserState

theorem refer_eq_of_target? {s : ParserState} {pending : PendingReference} {display : Text}
    {f : Failure Nat} (hdisplay : pending.text.before? Mark.circularClose = some display)
    (htarget : s.target? display = some f) :
    s.refer pending = { s with current := s.current.setCause (.backRef f.link) } := by
  simp only [refer, hdisplay, htarget]

theorem refer_eq_of_target?_eq_none {s : ParserState} {pending : PendingReference} {display : Text}
    (hdisplay : pending.text.before? Mark.circularClose = some display)
    (htarget : s.target? display = none) :
    s.refer pending = { s with
      current.phase :=
        .circular { pending with unresolved := pending.unresolved <|> some display } } := by
  simp only [refer, hdisplay, htarget]

theorem mem_stack_of_target? {s : ParserState} {display : Text} {f : Failure Nat}
    (h : s.target? display = some f) :
    (∃ o ∈ s.current :: s.parents, o.node = f) ∧ f.displayText = display := by
  obtain ⟨o, ho, hnode⟩ := List.mem_map.1 (List.mem_of_find?_eq_some h)
  exact ⟨⟨o, by simpa [or_comm] using ho, hnode⟩, by simpa using List.find?_some h⟩

def recast (r : Recast) (s : ParserState) : ParserState :=
  ⟨s.current.recast r, s.parents.map (·.recast r), r.id s.next⟩

end ParserState

/-- Whether the second of two readers fits the first one under a recast. Display texts matter only
where the outcome of a circular reference is in `P`. -/
structure Recast.Fits (r : Recast) (codec codec' : Codec) (P : ParserState → Prop) : Prop where
  config_eq : codec'.config = codec.config
  id_succ (id : Nat) : r.id (id + 1) = r.id id + 1
  ofHeader (depth : Nat) (relation : Relation) (id : Nat) (header : Text) :
    OpenFailure.ofHeader codec' depth relation (r.id id) header =
      (OpenFailure.ofHeader codec depth relation id header).recast r
  displayText_iff {s : ParserState} {pending : PendingReference} {display : Text}
    (outcome : P (s.refer pending)) (shown : pending.text.before? Mark.circularClose = some display)
    {f : OpenFailure} (mem : f ∈ s.current :: s.parents) :
    (r.node f.node).displayText = display ↔ f.node.displayText = display

section Simulation
variable {r : Recast} {codec codec' : Codec} {P : ParserState → Prop}

namespace ParserState

theorem target?_recast {s : ParserState} {display : Text}
    (h : ∀ f ∈ s.current :: s.parents,
      (r.node f.node).displayText = display ↔ f.node.displayText = display) :
    (s.recast r).target? display = (s.target? display).map r.node := by
  have hstack : ((s.recast r).parents ++ [(s.recast r).current]).map OpenFailure.node =
      ((s.parents ++ [s.current]).map OpenFailure.node).map r.node := by
    simp [recast, OpenFailure.recast]
  rw [target?, target?, hstack, List.find?_map]
  congr 1
  refine List.find?_congr fun f hf => ?_
  obtain ⟨o, ho, rfl⟩ := List.mem_map.1 hf
  have hmem : o ∈ s.current :: s.parents := by
    simpa [or_comm] using ho
  simp [h o hmem]

theorem expand_recast (s : ParserState) (line count : Nat) :
    (s.recast r).expand line count = (s.expand line count).map (recast r) := by
  cases hparents : s.parents with
  | nil => simp only [expand, hparents, recast, List.map_nil, Except.map]
  | cons parent outer =>
    simp only [expand, hparents, recast, List.map_cons, OpenFailure.frames_recast]
    split
    · simp only [Except.map, recast, List.map_cons, OpenFailure.recast_addFrames]
    · rfl

section Fits
variable (hr : r.Fits codec codec' P)
include hr

theorem refer_recast {s : ParserState} {pending : PendingReference} (h : P (s.refer pending)) :
    (s.recast r).refer pending = (s.refer pending).recast r := by
  cases hdisplay : pending.text.before? Mark.circularClose with
  | none =>
    simp only [refer, hdisplay]
    rfl
  | some display =>
    have hsame (f : OpenFailure) := hr.displayText_iff (f := f) h hdisplay
    have htarget' := target?_recast hsame
    cases htarget : s.target? display with
    | none =>
      rw [htarget, Option.map_none] at htarget'
      rw [refer_eq_of_target?_eq_none hdisplay htarget,
        refer_eq_of_target?_eq_none hdisplay htarget']
      rfl
    | some target =>
      obtain ⟨⟨f, hf, rfl⟩, hshown⟩ := mem_stack_of_target? htarget
      have hid : (r.node f.node).id = r.id f.node.id := by
        rw [r.node_eq]
      have hcause : r.cause (.backRef f.node.link) = .backRef (r.node f.node).link := by
        rw [r.cause_backRef, Failure.link, Failure.link, hid, (hsame f hf).2 hshown, hshown]
      have hcurrent := OpenFailure.recast_setCause r s.current (.backRef f.node.link)
      rw [hcause] at hcurrent
      rw [htarget, Option.map_some] at htarget'
      rw [refer_eq_of_target? hdisplay htarget, refer_eq_of_target? hdisplay htarget']
      exact congrArg (fun current => ParserState.mk current _ _) hcurrent.symm

theorem descend_recast (s : ParserState) (depth : Nat) (relation : Relation) (header : Text) :
    (s.recast r).descend codec' depth relation header =
      (s.descend codec depth relation header).recast r := by
  have hid : (s.recast r).next = r.id s.next := rfl
  rw [descend, hid, hr.ofHeader, ← hr.id_succ]
  rfl

theorem takeMark?_recast {s : ParserState} {line : Nat} {mark : Mark}
    (h : ∀ s', s.takeMark? codec line mark = some (.ok s') → P s') :
    (s.recast r).takeMark? codec' line mark =
      (s.takeMark? codec line mark).map (Except.map (recast r)) := by
  have hphase : (s.recast r).current.phase = s.current.phase := rfl
  have hdepth : (s.recast r).current.depth = s.current.depth := rfl
  cases mark with
  | frame text =>
    rw [takeMark?, takeMark?, hphase]
    split
    · cases Frame.read text with
      | error e => rfl
      | ok frame => simp only [Option.map_some, Except.map, recast, OpenFailure.recast_addFrames]
    · rfl
  | elision count =>
    rw [takeMark?, takeMark?, hphase, expand_recast]
    split <;> rfl
  | suppressed header =>
    rw [takeMark?, takeMark?, hphase, hdepth, descend_recast hr]
    split <;> rfl
  | circular text =>
    rw [takeMark?, takeMark?, hphase]
    split
    · next hrelations =>
      rw [refer_recast hr (h _ (by rw [takeMark?, if_pos hrelations]))]
      rfl
    · rfl
  | causedBy header =>
    rw [takeMark?, takeMark?, hphase, hdepth, descend_recast hr]
    split <;> rfl

theorem take?_recast {s : ParserState} {line : Nat} {text : Text}
    (h : ∀ s', s.take? codec line text = some (.ok s') → P s') :
    (s.recast r).take? codec' line text =
      (s.take? codec line text).map (Except.map (recast r)) := by
  have hphase : (s.recast r).current.phase = s.current.phase := rfl
  have hdepth : (s.recast r).current.depth = s.current.depth := rfl
  cases hpending : s.current.phase.pending? with
  | some pending =>
    rw [take?_of_pending? hpending] at h ⊢
    rw [take?_of_pending? (hphase ▸ hpending), hr.config_eq, refer_recast hr (h _ rfl)]
    rfl
  | none =>
    have hcontinue : (s.recast r).current.continueMessage? codec' text = _ :=
      OpenFailure.continueMessage?_recast r hr.config_eq s.current text
    rw [take?_of_pending?_eq_none hpending] at h ⊢
    rw [take?_of_pending?_eq_none (hphase ▸ hpending), hcontinue, hdepth]
    cases hcurrent : s.current.continueMessage? codec text with
    | some current => rfl
    | none =>
      cases hmark : Mark.ofLine? s.current.depth text with
      | none => rfl
      | some mark =>
        exact takeMark?_recast hr fun s' hs' => h s' (by rw [hcurrent, hmark]; exact hs')

theorem feed_recast {line : Nat} {text : Text} {next : Nat} {current : OpenFailure}
    {parents : List OpenFailure}
    (h : ∀ s', feed codec line text next current parents = .ok s' → P s') :
    feed codec' line text (r.id next) (current.recast r) (parents.map (·.recast r)) =
      (feed codec line text next current parents).map (recast r) := by
  -- the current failure takes the line in both runs, or it is attached to its parent in both
  induction parents generalizing current with
  | nil =>
    have htake : (recast r ⟨current, [], next⟩).take? codec' line text =
        (take? codec line text ⟨current, [], next⟩).map (Except.map (recast r)) :=
      take?_recast hr fun s' hs' => h s' (by rw [feed, hs', Option.getD_some])
    rw [recast, List.map_nil] at htake
    rw [List.map_nil, feed, feed, htake]
    cases take? codec line text ⟨current, [], next⟩ <;> rfl
  | cons parent outer ih =>
    have htake : (recast r ⟨current, parent :: outer, next⟩).take? codec' line text =
        (take? codec line text ⟨current, parent :: outer, next⟩).map (Except.map (recast r)) :=
      take?_recast hr fun s' hs' => h s' (by rw [feed, hs'])
    rw [recast, List.map_cons] at htake
    rw [List.map_cons, feed, feed, htake]
    cases hnone : take? codec line text ⟨current, parent :: outer, next⟩ with
    | some result => rfl
    | none =>
      rw [Option.map_none]
      dsimp only
      rw [← OpenFailure.recast_attach]
      exact ih fun s' hs' => h s' (by rw [feed, hnone]; exact hs')

theorem run_recast {s : ParserState} {line : Nat} {lines : List Text}
    (h : ∀ n s', run codec line (lines.take n) s = .ok s' → P s') :
    run codec' line lines (s.recast r) = (run codec line lines s).map (recast r) := by
  induction lines generalizing line s with
  | nil => rfl
  | cons text lines ih =>
    have hstep : (s.recast r).step codec' line text = (s.step codec line text).map (recast r) :=
      feed_recast hr fun s' (hs' : s.step codec line text = .ok s') => h 1 s' (by
        rw [List.take_succ_cons, run, hs']
        rfl)
    rw [run, run, hstep]
    cases hs : s.step codec line text with
    | error e => rfl
    | ok s' =>
      exact ih fun n s'' hs'' => h (n + 1) s'' (by rw [List.take_succ_cons, run, hs]; exact hs'')

end Fits

theorem close_recast (current : OpenFailure) (parents : List OpenFailure) :
    close (current.recast r) (parents.map (·.recast r)) = r.node (close current parents) := by
  induction parents generalizing current with
  | nil => rfl
  | cons parent outer ih => rw [List.map_cons, close, close, ← OpenFailure.recast_attach, ih]

theorem finish_recast (s : ParserState) : (s.recast r).finish = s.finish.map r.node := by
  have hphase : (s.recast r).current.phase = s.current.phase := rfl
  rw [finish, finish, hphase]
  split
  · rfl
  · exact congrArg Except.ok (close_recast s.current s.parents)

end ParserState

theorem Codec.ofLines_recast (hr : r.Fits codec codec' P) {first : Nat} {lines : List Text}
    (h : ∀ header rest n s, lines = header :: rest → header ≠ [] →
      ParserState.run codec 1 (rest.take n)
        ⟨.ofHeader codec 0 .root first header, [], first + 1⟩ = .ok s → P s) :
    codec'.ofLines (r.id first) lines = (codec.ofLines first lines).map r.node := by
  rw [Codec.ofLines.eq_def, Codec.ofLines.eq_def codec]
  split
  · rfl
  · rfl
  · next header rest hne =>
    have hrun := ParserState.run_recast hr fun n s => h header rest n s rfl hne
    rw [ParserState.recast, List.map_nil, ← hr.ofHeader, hr.id_succ] at hrun
    rw [hrun]
    cases ParserState.run codec 1 rest ⟨.ofHeader codec 0 .root first header, [], first + 1⟩ with
    | error e => rfl
    | ok s => exact ParserState.finish_recast s

end Simulation

end Stacktrace
