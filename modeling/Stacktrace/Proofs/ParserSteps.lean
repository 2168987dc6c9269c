import Stacktrace.Trace.Parser

/-!
# What the parser does with a line

`Takes` lists what a line can do to the failure that takes it. A line that the current failure
cannot take first makes it part of the failure above it, so a property of parser states that is kept
both by attaching and by taking (`Kept`) holds from where it first does to the end of the lines,
and for all graphs that are read when it holds at the start (`Invariant`, `Invariant.of_ofLines`).
-/

namespace Stacktrace

namespace Phase

def pending? : Phase → Option PendingReference
  | .circular pending => some pending
  | _ => none

theorem pending?_of_takesRelations {phase : Phase} (h : phase.takesRelations = true) :
    phase.pending? = none := by
  cases phase <;> simp_all [pending?, takesRelations]

theorem takesRelations_of_takesFrames {phase : Phase} (h : phase.takesFrames = true) :
    phase.takesRelations = true := by
  cases phase <;> simp_all [takesFrames, takesRelations]

end Phase

namespace OpenFailure

@[simp]
theorem update_node (f : OpenFailure) (node : Failure Nat) (phase : Phase) :
    (f.update node phase).node = node := rfl

@[simp]
theorem update_depth (f : OpenFailure) (node : Failure Nat) (phase : Phase) :
    (f.update node phase).depth = f.depth := rfl

@[simp]
theorem update_phase (f : OpenFailure) (node : Failure Nat) (phase : Phase) :
    (f.update node phase).phase = phase := rfl

theorem attach_eq_of_suppressed {parent child : OpenFailure}
    (h : child.visit.relation = .suppressed) : parent.attach child = parent.update
      { parent.node with suppressed := parent.node.suppressed ++ [child.node] } .relations := by
  rw [attach, h]

theorem attach_eq_of_cause {parent child : OpenFailure} (h : child.visit.relation = .cause) :
    parent.attach child = parent.setCause (.owned child.node) := by
  rw [attach, h]

theorem depth_attach (parent child : OpenFailure) :
    (parent.attach child).depth = parent.depth := by
  rw [attach]
  split <;> rfl

theorem phase_attach (parent child : OpenFailure) :
    (parent.attach child).phase = .relations ∨ (parent.attach child).phase = .complete := by
  rw [attach]
  split
  · exact .inl rfl
  · exact .inr rfl

theorem pending?_attach (parent child : OpenFailure) :
    (parent.attach child).phase.pending? = none := by
  rcases phase_attach parent child with h | h <;> rw [h] <;> rfl

theorem node_ofHeader (codec : Codec) (depth : Nat) (relation : Relation) (id : Nat)
    {header shown typeName : Text} {message : Option Text}
    (hsplit : splitHeader header = (shown, message))
    (hname : (shown.after? codec.config.indicator).getD shown = typeName) :
    (ofHeader codec depth relation id header).node = { Failure.ofType id typeName with
      message
      origin := if codec.resolver.resolves typeName then .resolved
        else .surrogate codec.config.indicator } := by
  rw [ofHeader, hsplit, ← hname]
  rfl

end OpenFailure

def OpenFailure.goOn (codec : Codec) (f : OpenFailure) (message text : Text) : OpenFailure :=
  f.update { f.node with message := some (message ++ codec.config.terminator ++ text) } .message

namespace ParserState

/-- The state after a line that the current failure takes. -/
inductive Takes (codec : Codec) (line : Nat) (text : Text) (s : ParserState) : ParserState → Prop
  | message {message : Text} (phase_eq : s.current.phase = .message)
      (message_eq : s.current.node.message = some message)
      (goesOn : Mark.endsMessage s.current.depth text = false) :
      Takes codec line text s { s with current := s.current.goOn codec message text }
  | frame {rest : Text} {frame : Frame} (phase_eq : s.current.phase.takesFrames = true)
      (mark : Mark.ofLine? s.current.depth text = some (.frame rest))
      (read : Frame.read rest = .ok frame) :
      Takes codec line text s { s with current := s.current.addFrames [frame] .frames }
  | elision {count : Nat} {parent : OpenFailure} {outer : List OpenFailure}
      (phase_eq : s.current.phase.takesFrames = true)
      (mark : Mark.ofLine? s.current.depth text = some (.elision count))
      (parents_eq : s.parents = parent :: outer) (le : count ≤ parent.node.frames.length) :
      Takes codec line text s
        { s with
          current := s.current.addFrames
            (parent.node.frames.drop (parent.node.frames.length - count)) .relations }
  | suppressed {header : Text} (phase_eq : s.current.phase.takesRelations = true)
      (mark : Mark.ofLine? s.current.depth text = some (.suppressed header)) :
      Takes codec line text s (s.descend codec (s.current.depth + 1) .suppressed header)
  | causedBy {header : Text} (phase_eq : s.current.phase.takesRelations = true)
      (mark : Mark.ofLine? s.current.depth text = some (.causedBy header)) :
      Takes codec line text s (s.descend codec s.current.depth .cause header)
  | circular {rest : Text} (phase_eq : s.current.phase.takesRelations = true)
      (mark : Mark.ofLine? s.current.depth text = some (.circular rest)) :
      Takes codec line text s (s.refer ⟨line, rest, rest, none⟩)
  | continued {pending : PendingReference} (phase_eq : s.current.phase = .circular pending) :
      Takes codec line text s
        (s.refer { pending with text := pending.text ++ codec.config.terminator ++ text })

/-- A circular reference stays open, or it is closed with a link to the failure that it names. -/
theorem refer_cases (s : ParserState) (pending : PendingReference) :
    (∃ still : PendingReference, still.text = pending.text ∧
      s.refer pending = { s with current.phase := .circular still }) ∨
    ∃ display f, pending.text = display ++ Mark.circularClose ∧ s.target? display = some f ∧
      s.refer pending = { s with current := s.current.setCause (.backRef f.link) } := by
  rw [refer]
  split
  · exact .inl ⟨pending, rfl, rfl⟩
  · next display hdisplay =>
    split
    · next f hf => exact .inr ⟨display, f, Text.before?_eq_some_iff.1 hdisplay, hf, rfl⟩
    · exact .inl ⟨{ pending with unresolved := pending.unresolved <|> some display }, rfl, rfl⟩

theorem takes_of_takeMark? {codec : Codec} {line : Nat} {text : Text} {s s' : ParserState}
    {mark : Mark} (hmark : Mark.ofLine? s.current.depth text = some mark)
    (h : s.takeMark? codec line mark = some (.ok s')) : Takes codec line text s s' := by
  cases mark with
  | frame rest =>
    simp only [takeMark?, Option.ite_none_right_eq_some] at h
    obtain ⟨hphase, h⟩ := h
    split at h
    · simp at h
    · next frame hread =>
      simp only [Option.some.injEq, Except.ok.injEq] at h
      exact h ▸ .frame hphase hmark hread
  | elision count =>
    simp only [takeMark?, Option.ite_none_right_eq_some, Option.some.injEq] at h
    obtain ⟨hphase, h⟩ := h
    rw [expand] at h
    split at h
    · simp at h
    · next parent outer hparents =>
      dsimp only at h
      split at h
      · next hle => exact Except.ok.inj h ▸ .elision hphase hmark hparents hle
      · simp at h
  | suppressed header =>
    simp only [takeMark?, Option.ite_none_right_eq_some, Option.some.injEq, Except.ok.injEq] at h
    exact h.2 ▸ .suppressed h.1 hmark
  | circular rest =>
    simp only [takeMark?, Option.ite_none_right_eq_some, Option.some.injEq, Except.ok.injEq] at h
    exact h.2 ▸ .circular h.1 hmark
  | causedBy header =>
    simp only [takeMark?, Option.ite_none_right_eq_some, Option.some.injEq, Except.ok.injEq] at h
    exact h.2 ▸ .causedBy h.1 hmark

theorem take?_of_pending? {codec : Codec} {line : Nat} {text : Text} {s : ParserState}
    {pending : PendingReference} (h : s.current.phase.pending? = some pending) :
    s.take? codec line text = some (.ok (s.refer
      { pending with text := pending.text ++ codec.config.terminator ++ text })) := by
  cases hphase : s.current.phase with
  | circular found =>
    rw [hphase, Phase.pending?, Option.some.injEq] at h
    simp only [take?, hphase, h]
  | _ => simp [hphase, Phase.pending?] at h

theorem take?_of_pending?_eq_none {codec : Codec} {line : Nat} {text : Text} {s : ParserState}
    (h : s.current.phase.pending? = none) :
    s.take? codec line text = ((s.current.continueMessage? codec text).map
      fun current => .ok { s with current }).or
        ((Mark.ofLine? s.current.depth text).bind (s.takeMark? codec line)) := by
  rw [take?]
  split
  · next pending hphase =>
    rw [hphase] at h
    cases h
  · cases s.current.continueMessage? codec text <;> rfl

theorem takes_of_take? {codec : Codec} {line : Nat} {text : Text} {s s' : ParserState}
    (h : s.take? codec line text = some (.ok s')) : Takes codec line text s s' := by
  rw [take?] at h
  split at h
  · next pending hphase =>
    simp only [Option.some.injEq, Except.ok.injEq] at h
    exact h ▸ .continued hphase
  · split at h
    · next current hcontinue =>
      simp only [Option.some.injEq, Except.ok.injEq] at h
      subst h
      rw [OpenFailure.continueMessage?] at hcontinue
      split at hcontinue
      · next message hphase hmessage =>
        simp only [Option.ite_none_left_eq_some, Option.some.injEq] at hcontinue
        obtain ⟨hends, rfl⟩ := hcontinue
        exact .message hphase hmessage (by simpa using hends)
      · simp at hcontinue
    · obtain ⟨mark, hmark, h⟩ := Option.bind_eq_some_iff.1 h
      exact takes_of_takeMark? hmark h

theorem pending?_of_take?_eq_none {codec : Codec} {line : Nat} {text : Text} {s : ParserState}
    (h : s.take? codec line text = none) : s.current.phase.pending? = none := by
  cases hpending : s.current.phase.pending? with
  | none => rfl
  | some pending => simp [take?_of_pending? hpending] at h

/-! ## Properties that hold to the end of the lines -/

/-- A property of the lines read so far and the state after them that is kept as the parser goes
on. -/
structure Kept (codec : Codec) (Inv : List Text → ParserState → Prop) : Prop where
  attach {lines : List Text} {child parent : OpenFailure} {outer : List OpenFailure} {next : Nat}
    (closed : child.phase.pending? = none) (inv : Inv lines ⟨child, parent :: outer, next⟩) :
    Inv lines ⟨parent.attach child, outer, next⟩
  takes {lines : List Text} {text : Text} {s s' : ParserState}
    (takes : Takes codec lines.length text s s') (inv : Inv lines s) : Inv (lines ++ [text]) s'

/-- A property that is kept and holds after the first line. -/
structure Invariant (codec : Codec) (first : Nat) (Inv : List Text → ParserState → Prop) : Prop
    extends Kept codec Inv where
  start (header : Text) (ne : header ≠ []) :
    Inv [header] ⟨.ofHeader codec 0 .root first header, [], first + 1⟩

namespace Kept
variable {codec : Codec} {Inv : List Text → ParserState → Prop}

theorem of_feed (h : Kept codec Inv) {lines : List Text} {text : Text} {next : Nat}
    {current : OpenFailure} {parents : List OpenFailure} {s : ParserState}
    (hfeed : feed codec lines.length text next current parents = .ok s)
    (hinv : Inv lines ⟨current, parents, next⟩) : Inv (lines ++ [text]) s := by
  induction parents generalizing current with
  | nil =>
    rw [feed] at hfeed
    cases htake : take? codec lines.length text ⟨current, [], next⟩ with
    | none => simp [htake] at hfeed
    | some result =>
      rw [htake, Option.getD_some] at hfeed
      exact h.takes (takes_of_take? (hfeed ▸ htake)) hinv
  | cons parent outer ih =>
    rw [feed] at hfeed
    cases htake : take? codec lines.length text ⟨current, parent :: outer, next⟩ with
    | none =>
      rw [htake] at hfeed
      exact ih hfeed (h.attach (pending?_of_take?_eq_none htake) hinv)
    | some result =>
      rw [htake] at hfeed
      exact h.takes (takes_of_take? (hfeed ▸ htake)) hinv

theorem of_run (h : Kept codec Inv) {lines rest : List Text} {s s' : ParserState}
    (hrun : run codec lines.length rest s = .ok s') (hinv : Inv lines s) :
    Inv (lines ++ rest) s' := by
  induction rest generalizing lines s with
  | nil =>
    rw [run, Except.ok.injEq] at hrun
    rw [List.append_nil, ← hrun]
    exact hinv
  | cons text rest ih =>
    rw [run] at hrun
    cases hstep : s.step codec lines.length text with
    | error e => simp [hstep, Except.bind] at hrun
    | ok next =>
      rw [hstep, Except.bind] at hrun
      have hnext := h.of_feed hstep hinv
      rw [List.append_cons]
      exact ih (by simpa using hrun) hnext

theorem of_close (h : Kept codec Inv) {lines : List Text} {next : Nat}
    {current : OpenFailure} {parents : List OpenFailure} (hclosed : current.phase.pending? = none)
    (hinv : Inv lines ⟨current, parents, next⟩) :
    ∃ root : OpenFailure, root.phase.pending? = none ∧ root.node = close current parents ∧
      Inv lines ⟨root, [], next⟩ := by
  induction parents generalizing current with
  | nil => exact ⟨current, hclosed, rfl, hinv⟩
  | cons parent outer ih =>
    exact ih (OpenFailure.pending?_attach parent current) (h.attach hclosed hinv)

end Kept

theorem Invariant.of_run_start {codec : Codec} {first : Nat} {Inv : List Text → ParserState → Prop}
    (h : Invariant codec first Inv) {header : Text} (hne : header ≠ []) {rest : List Text}
    {s : ParserState}
    (hrun : run codec 1 rest ⟨.ofHeader codec 0 .root first header, [], first + 1⟩ = .ok s) :
    Inv (header :: rest) s :=
  h.of_run (show run codec [header].length rest _ = .ok s from hrun) (h.start header hne)

theorem exists_run_of_ofLines {codec : Codec} {first : Nat} {lines : List Text} {g : Failure Nat}
    (h : codec.ofLines first lines = .ok g) : ∃ header rest s,
      lines = header :: rest ∧ header ≠ [] ∧
      run codec 1 rest ⟨.ofHeader codec 0 .root first header, [], first + 1⟩ = .ok s ∧
      s.current.phase.pending? = none ∧ close s.current s.parents = g := by
  rw [Codec.ofLines.eq_def] at h
  split at h
  · simp at h
  · simp at h
  · next header rest hne =>
    cases hrun : run codec 1 rest ⟨.ofHeader codec 0 .root first header, [], first + 1⟩ with
    | error e => simp [hrun, Except.bind] at h
    | ok s =>
      rw [hrun, Except.bind, finish] at h
      split at h
      · simp at h
      · next hphase =>
        have hclosed : s.current.phase.pending? = none := by
          cases hp : s.current.phase with
          | circular pending => exact absurd hp (hphase pending)
          | _ => rfl
        exact ⟨header, rest, s, rfl, hne, hrun, hclosed, Except.ok.inj h⟩

/-- A property that is kept and holds after some of the lines of a graph holds at the end of the
lines with the root as the only failure. -/
theorem Kept.of_ofLines {codec : Codec} {first : Nat} {Inv : List Text → ParserState → Prop}
    (h : Kept codec Inv) {header : Text} {rest : List Text} {n : Nat} {s : ParserState}
    {g : Failure Nat} (hlines : codec.ofLines first (header :: rest) = .ok g)
    (hrun : run codec 1 (rest.take n)
      ⟨.ofHeader codec 0 .root first header, [], first + 1⟩ = .ok s)
    (hinv : Inv (header :: rest.take n) s) :
    ∃ (root : OpenFailure) (next : Nat), root.phase.pending? = none ∧ root.node = g ∧
      Inv (header :: rest) ⟨root, [], next⟩ := by
  obtain ⟨_, _, final, hsame, -, hfinal, hclosed, hclose⟩ := exists_run_of_ofLines hlines
  obtain ⟨rfl, rfl⟩ := List.cons.inj hsame
  rw [← List.take_append_drop n rest, run_append, hrun, Except.bind, Nat.add_comm] at hfinal
  have hend := h.of_run (show run codec (header :: rest.take n).length _ s = _ from hfinal) hinv
  rw [List.cons_append, List.take_append_drop] at hend
  obtain ⟨root, hroot, hnode, hinv⟩ := h.of_close hclosed hend
  exact ⟨root, final.next, hroot, hnode.trans hclose, hinv⟩

theorem Invariant.of_ofLines {codec : Codec} {first : Nat} {Inv : List Text → ParserState → Prop}
    (h : Invariant codec first Inv) {lines : List Text} {g : Failure Nat}
    (hlines : codec.ofLines first lines = .ok g) :
    ∃ (root : OpenFailure) (next : Nat), root.phase.pending? = none ∧ root.node = g ∧
      Inv lines ⟨root, [], next⟩ := by
  obtain ⟨header, rest, _, rfl, hne, -⟩ := exists_run_of_ofLines hlines
  exact h.toKept.of_ofLines (n := 0) hlines rfl (h.start header hne)

end ParserState
end Stacktrace
