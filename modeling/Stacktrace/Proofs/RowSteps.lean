import Stacktrace.Proofs.MarkRows
import Stacktrace.Proofs.ParserSteps
import Stacktrace.Proofs.TextLines

/-!
# How rows are read

A row that is written at a depth finds the open failure that stands at this depth: every failure
deeper than the row is read to its end, because it can take no such row. `Unwinds` is the state that
is left then. The other rows of a failure are read with nothing to unwind: the lines of its message,
its frames and the lines of a circular reference.
-/

namespace Stacktrace

theorem Mark.plain_indent_append (depth : Nat) {t : Text} (h : t.Plain) :
    Text.Plain (Mark.indent depth ++ t) := by
  refine Text.plain_append.2 ⟨⟨?_, ?_⟩, h⟩
  · simp [Mark.indent]
  · simp [Mark.indent]

namespace ParserState
open OpenFailure
variable {codec : Codec} {mark : Mark}

/-! ## The failure that takes a row -/

theorem continueMessage?_of_endsMessage {f : OpenFailure} {text : Text}
    (h : Mark.endsMessage f.depth text = true) : f.continueMessage? codec text = none := by
  rw [OpenFailure.continueMessage?]
  split
  · rw [if_pos h]
  · rfl

theorem take?_of_endsMessage {s : ParserState} (hphase : s.current.phase.pending? = none)
    (line : Nat) {text : Text} (h : Mark.endsMessage s.current.depth text = true) :
    s.take? codec line text = (Mark.ofLine? s.current.depth text).bind (s.takeMark? codec line) := by
  rw [take?_of_pending?_eq_none hphase, continueMessage?_of_endsMessage h, Option.map_none,
    Option.none_or]

theorem take?_row (hmark : ∀ count, mark ≠ .elision count) {s : ParserState} {depth : Nat}
    (hphase : s.current.phase.pending? = none) (hdepth : s.current.depth = depth) (line : Nat) :
    s.take? codec line (mark.row depth) = s.takeMark? codec line mark := by
  subst hdepth
  rw [take?_of_endsMessage hphase line (Mark.endsMessage_row_of_le hmark (Nat.le_refl _)),
    Mark.ofLine?_row hmark, Option.bind_some]

theorem take?_row_of_lt (hmark : ∀ count, mark ≠ .elision count) {s : ParserState} {depth : Nat}
    (hphase : s.current.phase.pending? = none) (hdepth : depth < s.current.depth) (line : Nat) :
    s.take? codec line (mark.row depth) = none := by
  rw [take?_of_endsMessage hphase line (Mark.endsMessage_row_of_le hmark (Nat.le_of_lt hdepth)),
    Mark.ofLine?_row_of_lt hmark hdepth, Option.bind_none]

theorem take?_of_elision {s : ParserState} (hphase : s.current.phase.takesFrames = true)
    {text : Text} {count : Nat} (hmark : Mark.ofLine? s.current.depth text = some (.elision count))
    (line : Nat) : s.take? codec line text = some (s.expand line count) := by
  have hpending := Phase.pending?_of_takesRelations (Phase.takesRelations_of_takesFrames hphase)
  rw [take?_of_endsMessage hpending line (Mark.endsMessage_of_ofLine? hmark (Nat.le_refl _)), hmark,
    Option.bind_some, takeMark?, if_pos hphase]

/-- Reading the failures down to `depth` to their ends leaves `f` with `outer` above it. -/
inductive Unwinds (depth : Nat) (f : OpenFailure) (outer : List OpenFailure) :
    OpenFailure → List OpenFailure → Prop
  | done : Unwinds depth f outer f outer
  | close {current parent : OpenFailure} {parents : List OpenFailure} (deep : depth ≤ current.depth)
      (closed : current.phase.pending? = none)
      (rest : Unwinds depth f outer (parent.attach current) parents) :
      Unwinds depth f outer current (parent :: parents)

namespace Unwinds
variable {depth : Nat} {f current : OpenFailure} {outer parents : List OpenFailure}

theorem mono {less : Nat} (hless : less ≤ depth) (h : Unwinds depth f outer current parents) :
    Unwinds less f outer current parents := by
  induction h with
  | done => exact .done
  | close deep closed _ ih => exact .close (Nat.le_trans hless deep) closed ih

theorem trans {g : OpenFailure} {rest : List OpenFailure} (h : Unwinds depth f outer current parents)
    (hf : Unwinds depth g rest f outer) : Unwinds depth g rest current parents := by
  induction h with
  | done => exact hf
  | close deep closed _ ih => exact .close deep closed ih

theorem attach {child parent : OpenFailure} (h : Unwinds depth child (parent :: outer) current parents)
    (hdepth : depth ≤ child.depth) (hclosed : child.phase.pending? = none) :
    Unwinds depth (parent.attach child) outer current parents :=
  h.trans (.close hdepth hclosed .done)

theorem feed_row (hmark : ∀ count, mark ≠ .elision count) (h : Unwinds (depth + 1) f outer current parents)
    (hclosed : f.phase.pending? = none) (hdepth : f.depth = depth) {line next : Nat}
    {result : Except DecodeError ParserState}
    (htake : takeMark? codec line ⟨f, outer, next⟩ mark = some result) :
    feed codec line (mark.row depth) next current parents = result := by
  induction h with
  | done =>
    have htake' := (take?_row (s := ⟨f, outer, next⟩) hmark hclosed hdepth line).trans htake
    cases outer with
    | nil => rw [feed, htake', Option.getD_some]
    | cons parent outer => rw [feed, htake']
  | @close current parent parents deep closed _ ih =>
    rw [feed, take?_row_of_lt (s := ⟨current, parent :: parents, next⟩) hmark closed deep line]
    exact ih

theorem pending?_eq_none (h : Unwinds depth f outer current parents)
    (hclosed : f.phase.pending? = none) : current.phase.pending? = none := by
  cases h with
  | done => exact hclosed
  | close _ closed _ => exact closed

theorem close_eq (h : Unwinds depth f [] current parents) :
    ParserState.close current parents = f.node := by
  induction h with
  | done => rfl
  | close _ _ _ ih => exact ih

theorem finish_eq {s : ParserState} (h : Unwinds depth f [] s.current s.parents)
    (hclosed : f.phase.pending? = none) : s.finish = .ok f.node := by
  have hpending := h.pending?_eq_none hclosed
  rw [finish]
  split
  · next pending hphase =>
    rw [hphase] at hpending
    cases hpending
  · rw [h.close_eq]

end Unwinds

/-! ## Rows with nothing to unwind -/

theorem step_of_take? {s : ParserState} {line : Nat} {text : Text}
    {result : Except DecodeError ParserState} (h : s.take? codec line text = some result) :
    s.step codec line text = result := by
  obtain ⟨current, parents, next⟩ := s
  cases parents with
  | nil =>
    change (take? codec line text ⟨current, [], next⟩).getD _ = result
    rw [h, Option.getD_some]
  | cons parent outer =>
    rw [step, feed, h]

theorem run_cons_of_step {s s' : ParserState} {line : Nat} {text : Text}
    (h : s.step codec line text = .ok s') (rest : List Text) :
    run codec line (text :: rest) s = run codec (line + 1) rest s' := by
  rw [run, h, Except.bind]

theorem run_goOn {f : OpenFailure} {message : Text} {more : List Text} (hphase : f.phase = .message)
    (hmessage : f.node.message = some message)
    (hmore : ∀ text ∈ more, Mark.endsMessage f.depth text = false) (outer : List OpenFailure)
    (line next : Nat) : run codec line more ⟨f, outer, next⟩ =
      .ok ⟨f.update { f.node with
        message := some (Text.joined codec.config.terminator message more) } .message, outer, next⟩ := by
  induction more generalizing f message line with
  | nil =>
    obtain ⟨⟨depth, relation, node⟩, phase⟩ := f
    obtain ⟨id, typeName, found, frames, origin, suppressed, cause⟩ := node
    cases hphase
    cases hmessage
    rfl
  | cons text more ih =>
    obtain ⟨htext, hmore⟩ := List.forall_mem_cons.1 hmore
    have htake : take? codec line text ⟨f, outer, next⟩ =
        some (.ok ⟨f.goOn codec message text, outer, next⟩) := by
      rw [take?, hphase]
      simp [OpenFailure.continueMessage?, hphase, hmessage, htext, OpenFailure.goOn]
    rw [run_cons_of_step (step_of_take? htake)]
    exact ih (f := f.goOn codec message text) rfl rfl hmore (line + 1)

variable (codec) in
theorem run_frameRows {f : OpenFailure} {depth : Nat} {frames : List Frame} (hdepth : f.depth = depth)
    (hphase : f.phase.takesFrames = true)
    (hframes : ∀ frame ∈ frames, Frame.read frame.render = .ok frame) (outer : List OpenFailure)
    (line next : Nat) : ∃ phase : Phase, phase.takesFrames = true ∧
      run codec line (frames.map (Failure.frameRow depth)) ⟨f, outer, next⟩ =
        .ok ⟨f.addFrames frames phase, outer, next⟩ := by
  induction frames generalizing f line with
  | nil =>
    refine ⟨f.phase, hphase, ?_⟩
    have hsame : f.addFrames [] f.phase = f := by
      rw [OpenFailure.addFrames, List.append_nil]
      obtain ⟨⟨depth, relation, node⟩, phase⟩ := f
      cases node
      rfl
    rw [hsame]
    rfl
  | cons frame frames ih =>
    obtain ⟨hframe, hframes⟩ := List.forall_mem_cons.1 hframes
    have hclosed := Phase.pending?_of_takesRelations (Phase.takesRelations_of_takesFrames hphase)
    have htake : take? codec line (Failure.frameRow depth frame) ⟨f, outer, next⟩ =
        some (.ok ⟨f.addFrames [frame] .frames, outer, next⟩) := by
      rw [Failure.frameRow_eq_row, take?_row (s := ⟨f, outer, next⟩) (by simp) hclosed hdepth,
        takeMark?, if_pos hphase, hframe]
    obtain ⟨phase, hnew, hrun⟩ := ih (f := f.addFrames [frame] .frames) hdepth rfl hframes (line + 1)
    refine ⟨phase, hnew, ?_⟩
    have hadd : (f.addFrames [frame] .frames).addFrames frames phase =
        f.addFrames (frame :: frames) phase := by
      rw [OpenFailure.addFrames, OpenFailure.addFrames, OpenFailure.addFrames, update_node,
        List.append_assoc]
      rfl
    rw [List.map_cons, run_cons_of_step (step_of_take? htake), ← hadd]
    exact hrun

theorem prefix_of_append_terminator {terminator display shown more : Text}
    (hterminator : terminator.EndsLine)
    (h : display ++ Mark.circularClose = shown ++ Mark.circularClose ++ terminator ++ more) :
    shown ++ Mark.circularClose ++ terminator <+: display := by
  rcases more.eq_nil_or_concat' with rfl | ⟨most, last, rfl⟩
  · exfalso
    have hlast := congrArg List.getLast? h
    rcases hterminator with rfl | rfl <;> simp [Mark.circularClose] at hlast
  · rw [← List.append_assoc, Mark.circularClose] at h
    exact ⟨most, (List.append_inj_left' h rfl).symm⟩

/-- The lines of a circular reference after the first. The reference is closed at the last of them
when no open failure has a display text that ends at an earlier one. -/
theorem run_refer (hterminator : codec.config.terminator.EndsLine) {f : OpenFailure}
    {outer : List OpenFailure} {display : Text} {target : Failure Nat} {more : List Text}
    {pending : PendingReference} {next : Nat}
    (htarget : target? ⟨f, outer, next⟩ display = some target)
    (hearlier : ∀ shown, (target? ⟨f, outer, next⟩ shown).isSome = true →
      ¬ shown ++ Mark.circularClose ++ codec.config.terminator <+: display)
    (htext : Text.joined codec.config.terminator pending.text more = display ++ Mark.circularClose)
    (line : Nat) : run codec line more (refer ⟨f, outer, next⟩ pending) =
      .ok ⟨f.setCause (.backRef target.link), outer, next⟩ := by
  induction more generalizing f pending line with
  | nil =>
    rw [refer, Text.before?_eq_some_iff.2 (show pending.text = _ from htext)]
    simp only [htarget]
    rfl
  | cons text more ih =>
    rw [Text.joined_cons, ← Text.append_joined] at htext
    rcases refer_cases ⟨f, outer, next⟩ pending
        with ⟨still, hstill, hrefer⟩ | ⟨shown, found, hshown, hfound, -⟩
    -- still open: the search looks at no phases, so the same failures are found later
    · have hsame (display : Text) : target? ⟨{ f with phase := .circular still }, outer, next⟩ display =
          target? ⟨f, outer, next⟩ display := by
        rw [target?, target?, List.map_append, List.map_append]
        rfl
      rw [hrefer]
      have htake : take? codec line text ⟨{ f with phase := .circular still }, outer, next⟩ =
          some (.ok (refer ⟨{ f with phase := .circular still }, outer, next⟩
            { still with text := still.text ++ codec.config.terminator ++ text })) := rfl
      rw [run_cons_of_step (step_of_take? htake)]
      refine ih (f := { f with phase := .circular still }) ((hsame display).trans htarget) ?_ ?_ (line + 1)
      · intro shown hshown
        exact hearlier shown (hsame shown ▸ hshown)
      · rw [hstill, ← Text.append_joined, htext]
    -- closed too early: what was shown so far would end within `display`
    · rw [hshown] at htext
      exact absurd (prefix_of_append_terminator hterminator htext.symm)
        (hearlier shown (by rw [hfound]; rfl))

end ParserState
end Stacktrace
