import Mathlib.Data.List.Forall2
import Stacktrace.Proofs.Reread

/-!
# A run that trails another

Lines that say the same in other words bring the parser to where it has been brought before, up to
the identities, except that failures may still be open which the other run has read to their ends
(`Trails`). They are those below the failure that takes the next line, which closes them then, so a
run that trails another goes on trailing it, whatever the other one takes and closes.
-/

namespace Stacktrace

/-- Whether one open failure stands where another does and says the same. -/
def OpenFailure.Mirrors (f₁ f : OpenFailure) : Prop := f₁.Holds f.depth f.visit.relation f.node

namespace OpenFailure.Mirrors
variable {f₁ f : OpenFailure}

theorem depth_eq (h : f₁.Mirrors f) : f₁.depth = f.depth := Holds.depth_eq h

theorem alike (h : f₁.Mirrors f) : f.node.alike f₁.node = true := Holds.alike h

theorem displayText_eq (h : f₁.Mirrors f) : f₁.node.displayText = f.node.displayText :=
  Failure.displayText_eq_of_alike h.alike

theorem message_eq (h : f₁.Mirrors f) : f₁.node.message = f.node.message :=
  (Failure.alike_iff.1 h.alike).2.1.symm

theorem ofHeader (codec : Codec) (depth : Nat) (relation : Relation) (id₁ id : Nat)
    (header : Text) :
    (ofHeader codec depth relation id₁ header).Mirrors (ofHeader codec depth relation id header) :=
  ⟨rfl, rfl, Failure.alike_iff.2 ⟨rfl, rfl, rfl, rfl, rfl, rfl⟩⟩

theorem goOn (h : f₁.Mirrors f) (codec : Codec) (message text : Text) :
    (f₁.goOn codec message text).Mirrors (f.goOn codec message text) := by
  obtain ⟨htype, -, hframes, horigin, hsuppressed, hcause⟩ := Failure.alike_iff.1 h.alike
  exact ⟨h.depth_eq, h.relation_eq,
    Failure.alike_iff.2 ⟨htype, rfl, hframes, horigin, hsuppressed, hcause⟩⟩

theorem addFrames (h : f₁.Mirrors f) (frames : List Frame) (phase₁ phase : Phase) :
    (f₁.addFrames frames phase₁).Mirrors (f.addFrames frames phase) := by
  obtain ⟨htype, hmessage, hframes, horigin, hsuppressed, hcause⟩ := Failure.alike_iff.1 h.alike
  exact ⟨h.depth_eq, h.relation_eq, Failure.alike_iff.2
    ⟨htype, hmessage, congrArg (· ++ frames) hframes, horigin, hsuppressed, hcause⟩⟩

theorem setPhase (h : f₁.Mirrors f) (phase₁ phase : Phase) :
    ({ f₁ with phase := phase₁ } : OpenFailure).Mirrors { f with phase } :=
  ⟨h.depth_eq, h.relation_eq, h.alike⟩

theorem setBackRef (h : f₁.Mirrors f) {link₁ link : BackRef Nat}
    (hdisplay : link₁.display = link.display) :
    (f₁.setCause (.backRef link₁)).Mirrors (f.setCause (.backRef link)) := by
  obtain ⟨htype, hmessage, hframes, horigin, hsuppressed, -⟩ := Failure.alike_iff.1 h.alike
  exact ⟨h.depth_eq, h.relation_eq, Failure.alike_iff.2
    ⟨htype, hmessage, hframes, horigin, hsuppressed, decide_eq_true hdisplay.symm⟩⟩

theorem attach {child₁ child : OpenFailure} (h : f₁.Mirrors f) (hchild : child₁.Mirrors child) :
    (f₁.attach child₁).Mirrors (f.attach child) ∧
      (f₁.attach child₁).phase = (f.attach child).phase := by
  obtain ⟨htype, hmessage, hframes, horigin, hsuppressed, hcause⟩ := Failure.alike_iff.1 h.alike
  rw [OpenFailure.attach, OpenFailure.attach, hchild.relation_eq]
  split
  · have hlast : Failure.alikeIn [child.node] [child₁.node] = true := by
      rw [Failure.alikeIn, hchild.alike]
      rfl
    exact ⟨⟨h.depth_eq, h.relation_eq, Failure.alike_iff.2 ⟨htype, hmessage, hframes, horigin,
      Failure.alikeIn_append hsuppressed hlast, hcause⟩⟩, rfl⟩
  · exact ⟨⟨h.depth_eq, h.relation_eq, Failure.alike_iff.2 ⟨htype, hmessage, hframes, horigin,
      hsuppressed, hchild.alike⟩⟩, rfl⟩

end OpenFailure.Mirrors

/-- Whether all that can follow in the phase `ahead` can follow in `behind`, which may be a phase that
an elision would have ended. -/
structure Phase.Trails (behind ahead : Phase) : Prop where
  message : ahead = .message → behind = .message
  takesFrames : ahead.takesFrames = true → behind.takesFrames = true
  takesRelations : ahead.takesRelations = true → behind.takesRelations = true
  pending : behind.pending?.map PendingReference.text = ahead.pending?.map PendingReference.text

theorem Phase.Trails.refl (phase : Phase) : phase.Trails phase := ⟨id, id, id, rfl⟩

theorem Phase.Trails.pending?_eq_none {behind ahead : Phase} (h : behind.Trails ahead)
    (hahead : ahead.pending? = none) : behind.pending? = none := by
  have hpending := h.pending
  rwa [hahead, Option.map_none, Option.map_eq_none_iff] at hpending

namespace ParserState
open OpenFailure

/-- Whether a run comes to where `s` is by closing failures until `f₁` is its current one. The next
line closes them if `s` has come to a failure that takes only what hangs off it; where `s` can take
other lines, there is nothing to close. -/
structure Trails (s₁ s : ParserState) (f₁ : OpenFailure) (outer₁ : List OpenFailure) : Prop where
  unwinds : Unwinds s.current.depth f₁ outer₁ s₁.current s₁.parents
  unwinds_succ : s.current.phase.takesRelations = true →
    Unwinds (s.current.depth + 1) f₁ outer₁ s₁.current s₁.parents
  level : s.current.phase.takesFrames = true ∨ s.current.phase.pending? ≠ none →
    s₁.current = f₁ ∧ s₁.parents = outer₁
  phase : f₁.phase.Trails s.current.phase
  current : f₁.Mirrors s.current
  parents : List.Forall₂ Mirrors outer₁ s.parents

/-- Whether two runs are at the same place, and one can take there what the other can take. -/
structure Level (s₁ s : ParserState) : Prop where
  phase : s₁.current.phase.Trails s.current.phase
  current : s₁.current.Mirrors s.current
  parents : List.Forall₂ Mirrors s₁.parents s.parents

theorem Level.trails {s₁ s : ParserState} (h : s₁.Level s) : s₁.Trails s s₁.current s₁.parents :=
  ⟨.done, fun _ => .done, fun _ => ⟨rfl, rfl⟩, h.phase, h.current, h.parents⟩

theorem map_displayText_of_mirrors {outer₁ outer : List OpenFailure}
    (h : List.Forall₂ Mirrors outer₁ outer) :
    outer₁.map (·.node.displayText) = outer.map (·.node.displayText) := by
  induction h with
  | nil => rfl
  | cons hf _ ih => rw [List.map_cons, List.map_cons, hf.displayText_eq, ih]

theorem isSome_target?_of_mirrors {s₁ s : ParserState} (hcurrent : s₁.current.Mirrors s.current)
    (hparents : List.Forall₂ Mirrors s₁.parents s.parents) (display : Text) :
    (s₁.target? display).isSome = (s.target? display).isSome := by
  rw [Bool.eq_iff_iff, isSome_target?, isSome_target?,
    map_displayText_of_mirrors (.cons hcurrent hparents)]

theorem level_descend {s₁ s : ParserState} (hcurrent : s₁.current.Mirrors s.current)
    (hparents : List.Forall₂ Mirrors s₁.parents s.parents) (codec : Codec) (depth : Nat)
    (relation : Relation) (header : Text) :
    (s₁.descend codec depth relation header).Level (s.descend codec depth relation header) :=
  ⟨.refl _, .ofHeader codec depth relation s₁.next s.next header, .cons hcurrent hparents⟩

/-- Circular references with the same text are closed together, with links that show the same. -/
theorem level_refer {s₁ s : ParserState} (hcurrent : s₁.current.Mirrors s.current)
    (hparents : List.Forall₂ Mirrors s₁.parents s.parents) {pending₁ pending : PendingReference}
    (htext : pending₁.text = pending.text) : (s₁.refer pending₁).Level (s.refer pending) := by
  have hopen (still₁ still : PendingReference) (hstill : still₁.text = still.text) :
      Level { s₁ with current.phase := .circular still₁ }
        { s with current.phase := .circular still } :=
    ⟨⟨nofun, nofun, nofun, congrArg some hstill⟩, hcurrent.setPhase _ _, hparents⟩
  rw [refer, refer, htext]
  cases hbefore : pending.text.before? Mark.circularClose with
  | none => exact hopen pending₁ pending htext
  | some display =>
    have hsome := isSome_target?_of_mirrors hcurrent hparents display
    cases htarget : s.target? display with
    | none =>
      have hnone : s₁.target? display = none := by simpa [htarget] using hsome
      simp only [hnone, htarget]
      exact hopen _ _ rfl
    | some f =>
      obtain ⟨f₁, htarget₁⟩ := Option.isSome_iff_exists.1 (hsome.trans (by rw [htarget]; rfl))
      simp only [htarget₁, htarget]
      have hshown : f₁.displayText = f.displayText := by
        have hf : f.displayText = display := by simpa using List.find?_some htarget
        have hf₁ : f₁.displayText = display := by simpa using List.find?_some htarget₁
        rw [hf₁, hf]
      exact ⟨.refl _, hcurrent.setBackRef hshown, hparents⟩

namespace Trails
variable {s₁ s : ParserState} {f₁ : OpenFailure} {outer₁ : List OpenFailure}

/-- Where nothing has to be closed first, the two runs are at the same place. -/
theorem toLevel (h : s₁.Trails s f₁ outer₁)
    (hlevel : s.current.phase.takesFrames = true ∨ s.current.phase.pending? ≠ none) :
    s₁.Level s := by
  obtain ⟨rfl, rfl⟩ := h.level hlevel
  exact ⟨h.phase, h.current, h.parents⟩

theorem attach {child parent : OpenFailure} {outer : List OpenFailure} {next : Nat}
    (h : s₁.Trails ⟨child, parent :: outer, next⟩ f₁ outer₁)
    (hclosed : child.phase.pending? = none) (hposition : child.Position (parent :: outer)) :
    ∃ f₂ outer₂, s₁.Trails ⟨parent.attach child, outer, next⟩ f₂ outer₂ := by
  obtain ⟨hunwinds, -, -, hphase, hcurrent, hparents⟩ := h
  obtain ⟨-, hdepths⟩ := hposition
  cases hparents with
  | @cons parent₁ _ outer₂ _ hparent houter =>
    obtain ⟨hmirrors, hsame⟩ := hparent.attach hcurrent
    have hdepth : f₁.depth = child.depth := hcurrent.depth_eq
    have hclosed₁ := hphase.pending?_eq_none hclosed
    have hbelow {depth : Nat} (hless : depth ≤ child.depth) :
        Unwinds depth (parent₁.attach f₁) outer₂ s₁.current s₁.parents :=
      (hunwinds.mono hless).attach (hdepth ▸ hless) hclosed₁
    refine ⟨parent₁.attach f₁, outer₂, hbelow ?_, fun hrelations => hbelow ?_, fun hlevel => ?_,
      hsame ▸ .refl _, hmirrors, houter⟩
    · rw [depth_attach]
      omega
    · rw [depth_attach]
      rcases hdepths with ⟨-, hdeeper⟩ | ⟨hrelation, -⟩
      · omega
      -- a failure whose cause has been read takes no more
      · rw [attach_eq_of_cause hrelation] at hrelations
        simp [setCause, Phase.takesRelations] at hrelations
    · rcases phase_attach parent child with hphase | hphase <;>
        simp [hphase, Phase.takesFrames, Phase.pending?] at hlevel

theorem step_row (h : s₁.Trails s f₁ outer₁) (hphase : s.current.phase.takesRelations = true)
    {mark : Mark} (hmark : ∀ count, mark ≠ .elision count) {codec : Codec} {line : Nat}
    {result : Except DecodeError ParserState}
    (htake : takeMark? codec line ⟨f₁, outer₁, s₁.next⟩ mark = some result) :
    s₁.step codec line (mark.row s.current.depth) = result :=
  (h.unwinds_succ hphase).feed_row hmark
    (Phase.pending?_of_takesRelations (h.phase.takesRelations hphase)) h.current.depth_eq htake

theorem finish_eq {root : OpenFailure} {next : Nat} (h : s₁.Trails ⟨root, [], next⟩ f₁ outer₁)
    (hclosed : root.phase.pending? = none) :
    ∃ again, s₁.finish = .ok again ∧ root.node.alike again = true := by
  obtain ⟨hunwinds, -, -, hphase, hcurrent, hparents⟩ := h
  cases hparents
  exact ⟨f₁.node, hunwinds.finish_eq (hphase.pending?_eq_none hclosed), hcurrent.alike⟩

end Trails

/-! ## Lines that the trailing run takes -/

section Takes
variable {codec : Codec} {s₁ s : ParserState} {f₁ : OpenFailure} {outer₁ : List OpenFailure}
  (h : s₁.Trails s f₁ outer₁) (line : Nat)
include h

theorem Trails.run_goOn {message text : Text} (hphase : s.current.phase = .message)
    (hmessage : s.current.node.message = some message)
    (hgoesOn : Mark.endsMessage s.current.depth text = false) :
    ∃ s₂, run codec line [text] s₁ = .ok s₂ ∧
      s₂.Level { s with current := s.current.goOn codec message text } := by
  have hlevel := h.toLevel (.inl (by simp [hphase, Phase.takesFrames]))
  refine ⟨{ s₁ with current := s₁.current.goOn codec message text }, ?_,
    .refl _, hlevel.current.goOn codec message text, hlevel.parents⟩
  have htake : s₁.take? codec line text =
      some (.ok { s₁ with current := s₁.current.goOn codec message text }) := by
    rw [take?, hlevel.phase.message hphase]
    simp [OpenFailure.continueMessage?, hlevel.phase.message hphase,
      hlevel.current.message_eq.trans hmessage, hlevel.current.depth_eq, hgoesOn, OpenFailure.goOn]
  rw [run_cons_of_step (step_of_take? htake)]
  rfl

variable (codec) in
theorem Trails.run_frameRows {frames : List Frame} {phase : Phase}
    (hphase : s.current.phase.takesFrames = true) (hnew : phase = .frames ∨ phase = .relations)
    (hframes : ∀ frame ∈ frames, Frame.read frame.render = .ok frame) :
    ∃ s₂, run codec line (frames.map (Failure.frameRow s.current.depth)) s₁ = .ok s₂ ∧
      s₂.Level { s with current := s.current.addFrames frames phase } := by
  have hlevel := h.toLevel (.inl hphase)
  obtain ⟨phase₁, hphase₁, hrun⟩ := ParserState.run_frameRows codec hlevel.current.depth_eq
    (hlevel.phase.takesFrames hphase) hframes s₁.parents line s₁.next
  refine ⟨_, hrun, ?_, hlevel.current.addFrames frames phase₁ phase, hlevel.parents⟩
  have hrelations := Phase.takesRelations_of_takesFrames hphase₁
  refine ⟨?_, fun _ => hphase₁, fun _ => hrelations, ?_⟩
  · rcases hnew with rfl | rfl <;> exact nofun
  · change Option.map _ phase₁.pending? = Option.map _ phase.pending?
    rw [Phase.pending?_of_takesRelations hrelations]
    rcases hnew with rfl | rfl <;> rfl

theorem Trails.run_descend (hphase : s.current.phase.takesRelations = true) (mark : Mark)
    (hmark : ∀ count, mark ≠ .elision count) {depth : Nat} {relation : Relation} {header : Text}
    (htake : takeMark? codec line ⟨f₁, outer₁, s₁.next⟩ mark =
      some (.ok (descend codec ⟨f₁, outer₁, s₁.next⟩ depth relation header))) :
    ∃ s₂, run codec line [mark.row s.current.depth] s₁ = .ok s₂ ∧
      s₂.Level (s.descend codec depth relation header) := by
  have hlevel : (descend codec ⟨f₁, outer₁, s₁.next⟩ depth relation header).Level
      (s.descend codec depth relation header) :=
    level_descend h.current h.parents codec depth relation header
  refine ⟨_, ?_, hlevel⟩
  rw [run_cons_of_step (h.step_row hphase hmark htake)]
  rfl

theorem Trails.run_suppressed (hphase : s.current.phase.takesRelations = true) (header : Text) :
    ∃ s₂, run codec line [(Mark.suppressed header).row s.current.depth] s₁ = .ok s₂ ∧
      s₂.Level (s.descend codec (s.current.depth + 1) .suppressed header) := by
  refine h.run_descend line hphase (.suppressed header) (by simp) ?_
  rw [takeMark?, if_pos (h.phase.takesRelations hphase), h.current.depth_eq]

theorem Trails.run_causedBy (hphase : s.current.phase.takesRelations = true) (header : Text) :
    ∃ s₂, run codec line [(Mark.causedBy header).row s.current.depth] s₁ = .ok s₂ ∧
      s₂.Level (s.descend codec s.current.depth .cause header) := by
  refine h.run_descend line hphase (.causedBy header) (by simp) ?_
  rw [takeMark?, if_pos (h.phase.takesRelations hphase), h.current.depth_eq]

theorem Trails.run_circular (hphase : s.current.phase.takesRelations = true)
    (pending : PendingReference) :
    ∃ s₂, run codec line [(Mark.circular pending.text).row s.current.depth] s₁ = .ok s₂ ∧
      s₂.Level (s.refer pending) := by
  have htake : takeMark? codec line ⟨f₁, outer₁, s₁.next⟩ (.circular pending.text) = some (.ok
      (refer ⟨f₁, outer₁, s₁.next⟩ ⟨line, pending.text, pending.text, none⟩)) := by
    rw [takeMark?, if_pos (h.phase.takesRelations hphase)]
  have hlevel : (refer ⟨f₁, outer₁, s₁.next⟩ ⟨line, pending.text, pending.text, none⟩).Level
      (s.refer pending) := level_refer h.current h.parents rfl
  refine ⟨_, ?_, hlevel⟩
  rw [run_cons_of_step (h.step_row hphase (by simp) htake)]
  rfl

theorem Trails.run_continued {pending : PendingReference}
    (hphase : s.current.phase = .circular pending) (text : Text) :
    ∃ s₂, run codec line [text] s₁ = .ok s₂ ∧ s₂.Level (s.refer
      { pending with text := pending.text ++ codec.config.terminator ++ text }) := by
  have hlevel := h.toLevel (.inr (by simp [hphase, Phase.pending?]))
  have htexts := hlevel.phase.pending
  rw [hphase, Phase.pending?, Option.map_some, Option.map_eq_some_iff] at htexts
  obtain ⟨pending₁, hpending₁, htext⟩ := htexts
  have hrefer : Level
      (s₁.refer { pending₁ with text := pending₁.text ++ codec.config.terminator ++ text })
      (s.refer { pending with text := pending.text ++ codec.config.terminator ++ text }) :=
    level_refer hlevel.current hlevel.parents (by rw [htext])
  refine ⟨_, ?_, hrefer⟩
  rw [run_cons_of_step (step_of_take? (take?_of_pending? hpending₁))]
  rfl

end Takes
end ParserState
end Stacktrace
