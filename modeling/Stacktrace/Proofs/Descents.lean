import Stacktrace.Proofs.DescentSteps
import Stacktrace.Proofs.ErrorLines
import Stacktrace.Proofs.LineCuts
import Stacktrace.Proofs.OpenStack
import Stacktrace.Proofs.RowSteps

/-!
# Reading by descent

Reading by descent gives what reading one line at a time gives. `resume` is what the lines from a
cursor on give after a state of the latter; a call for a failure is left with a cursor and with the
failure read to its end, from which the lines that are left give the same (`resume_readFailure`). No
state of the latter has an index, so no index of the former is out of range.
-/

namespace Stacktrace

namespace ParserState
variable (codec : Codec) (lines : List Text)

/-- What the lines from a cursor on give after a state. -/
def resume (cursor : Nat) (s : ParserState) : Except Halt (Failure Nat) :=
  ((run codec cursor (lines.drop cursor) s).bind finish).mapError Halt.refused

variable {codec lines} {cursor : Nat} {line : Text} {s s' : ParserState}

theorem finish_of_pending?_eq_none (h : s.current.phase.pending? = none) :
    s.finish = .ok (close s.current s.parents) := by
  rw [finish]
  split
  · next pending hphase =>
    rw [hphase] at h
    cases h
  · rfl

theorem resume_of_none (h : lines[cursor]? = none) :
    resume codec lines cursor s = s.finish.mapError Halt.refused := by
  rw [resume, List.drop_eq_nil_of_le (List.getElem?_eq_none_iff.1 h)]
  rfl

theorem resume_of_some (h : lines[cursor]? = some line) : resume codec lines cursor s =
    ((s.step codec cursor line).mapError Halt.refused).bind (resume codec lines (cursor + 1)) := by
  obtain ⟨hlt, rfl⟩ := List.getElem?_eq_some_iff.1 h
  rw [resume, List.drop_eq_getElem_cons hlt, run]
  cases s.step codec cursor lines[cursor] <;> rfl

theorem resume_of_take? (h : lines[cursor]? = some line)
    (htake : s.take? codec cursor line = some (.ok s')) :
    resume codec lines cursor s = resume codec lines (cursor + 1) s' := by
  rw [resume_of_some h, step_of_take? htake]
  rfl

theorem resume_of_take?_error {e : DecodeError} (h : lines[cursor]? = some line)
    (htake : s.take? codec cursor line = some (.error e)) :
    resume codec lines cursor s = .error (.refused e) := by
  rw [resume_of_some h, step_of_take? htake]
  rfl

theorem take?_complete {f : OpenFailure} (h : f.phase = .complete) (i : Nat) (line : Text)
    (outer : List OpenFailure) (next : Nat) : take? codec i line ⟨f, outer, next⟩ = none := by
  rw [take?_of_pending?_eq_none (by rw [h]; rfl), OpenFailure.continueMessage?]
  simp only [h, Option.map_none, Option.none_or, Option.bind_eq_none_iff]
  intro mark _
  cases mark <;> simp [takeMark?, h, Phase.takesFrames, Phase.takesRelations]

section Closing
variable {f : OpenFailure} {outer : List OpenFailure} {next : Nat}

/-- A failure that cannot take the next line is part of the one above. -/
theorem resume_attach {parent : OpenFailure} (hclosed : f.phase.pending? = none)
    (h : ∀ line ∈ lines[cursor]?, take? codec cursor line ⟨f, parent :: outer, next⟩ = none) :
    resume codec lines cursor ⟨f, parent :: outer, next⟩ =
      resume codec lines cursor ⟨parent.attach f, outer, next⟩ := by
  cases hline : lines[cursor]? with
  | none =>
    rw [resume_of_none hline, resume_of_none hline, finish_of_pending?_eq_none hclosed,
      finish_of_pending?_eq_none (OpenFailure.pending?_attach parent f)]
    rfl
  | some line =>
    rw [resume_of_some hline, resume_of_some hline, step, feed, h line hline]
    rfl

/-- So it makes no difference how far it has been read. -/
theorem resume_complete (hclosed : f.phase.pending? = none)
    (h : ∀ line ∈ lines[cursor]?, take? codec cursor line ⟨f, outer, next⟩ = none) :
    resume codec lines cursor ⟨f, outer, next⟩ =
      resume codec lines cursor ⟨{ f with phase := .complete }, outer, next⟩ := by
  cases outer with
  | nil =>
    cases hline : lines[cursor]? with
    | none =>
      rw [resume_of_none hline, resume_of_none hline, finish_of_pending?_eq_none hclosed]
      rfl
    | some line =>
      rw [resume_of_some hline, resume_of_some hline, step, feed, h line hline, step, feed,
        take?_complete rfl]
  | cons parent outer =>
    rw [resume_attach hclosed h, resume_attach rfl fun line _ => take?_complete rfl _ line _ _]
    rfl

end Closing
end ParserState

namespace Descent
open ParserState

/-- The failure at a place, as far as it has been read. -/
def Place.opened (p : Place) (f : Failure Nat) (phase : Phase) : OpenFailure :=
  ⟨⟨p.depth, p.relation, f⟩, phase⟩

@[simp]
theorem Place.phase_opened (p : Place) (f : Failure Nat) (phase : Phase) :
    (p.opened f phase).phase = phase := rfl

/-- Whether the open failures are those above a place. -/
structure Place.Within (p : Place) (outer : List OpenFailure) : Prop where
  above_eq : p.above = scopeOf outer
  enclosing_eq : p.enclosing = outer.head?.map (·.node.frames)

theorem Place.Within.below {p : Place} {outer : List OpenFailure} (h : p.Within outer) (depth : Nat)
    (relation : Relation) (f : Failure Nat) (phase : Phase) :
    (p.below depth relation f).Within (p.opened f phase :: outer) where
  above_eq := by
    rw [Place.below, h.above_eq]
    rfl
  enclosing_eq := rfl

variable {codec : Codec} {lines : List Text} {p : Place} {outer : List OpenFailure}
  {next cursor : Nat} {phase : Phase}

/-! ## The part of a failure before all that hangs off it -/

theorem takeMessage_eq (depth i : Nat) (line : Text) (message : Option Text) :
    takeMessage codec depth i line message =
      .ok (if Mark.endsMessage depth line then none
        else message.map fun m => some (m ++ codec.config.terminator ++ line)) := by
  rw [takeMessage, Mark.endsMessageByPosition?_eq_some]
  cases Mark.endsMessage depth line <;> rfl

theorem continueMessage?_opened (f : Failure Nat) (line : Text) :
    (p.opened f .message).continueMessage? codec line =
      if Mark.endsMessage p.depth line then none
      else f.message.map fun m =>
        p.opened { f with message := some (m ++ codec.config.terminator ++ line) } .message := by
  rw [OpenFailure.continueMessage?]
  cases hmessage : f.message with
  | none => simp [Place.opened, OpenFailure.node, hmessage]
  | some m => simp [Place.opened, OpenFailure.node, OpenFailure.depth, OpenFailure.update, hmessage]

theorem continueMessage?_of_ne (hphase : phase ≠ .message) (f : Failure Nat) (line : Text) :
    (p.opened f phase).continueMessage? codec line = none := by
  cases phase with
  | message => exact absurd rfl hphase
  | _ => rfl

theorem take?_opened (hphase : phase.pending? = none) {f : Failure Nat} {line : Text}
    (hends : (p.opened f phase).continueMessage? codec line = none) (i : Nat) :
    take? codec i line ⟨p.opened f phase, outer, next⟩ =
      (Mark.ofLine? p.depth line).bind (takeMark? codec i ⟨p.opened f phase, outer, next⟩) := by
  rw [take?_of_pending?_eq_none hphase, hends, Option.map_none, Option.none_or]
  rfl

variable (codec lines p) in
theorem resume_message (f : Failure Nat) (outer : List OpenFailure) (next cursor : Nat)
    (message : Option Text) :
    ∃ text, (eachLine lines (takeMessage codec p.depth) cursor message).result = .ok text ∧
      (∀ line ∈ lines[(eachLine lines (takeMessage codec p.depth) cursor message).cursor]?,
        (p.opened { f with message := text } .message).continueMessage? codec line = none) ∧
      resume codec lines cursor ⟨p.opened { f with message } .message, outer, next⟩ =
        resume codec lines (eachLine lines (takeMessage codec p.depth) cursor message).cursor
          ⟨p.opened { f with message := text } .message, outer, next⟩ := by
  fun_induction eachLine lines (takeMessage codec p.depth) cursor message with
  | case1 cursor message hline =>
    exact ⟨message, rfl, fun line h => by simp [hline] at h, rfl⟩
  | case2 cursor message line hline halt htake =>
    rw [takeMessage_eq] at htake
    cases htake
  | case3 cursor message line hline htake =>
    refine ⟨message, rfl, fun found hfound => ?_, rfl⟩
    obtain rfl : line = found := Option.some.inj (hline.symm.trans hfound)
    rw [takeMessage_eq, Except.ok.injEq] at htake
    rw [continueMessage?_opened]
    split
    · rfl
    · next hends =>
      rw [if_neg hends, Option.map_eq_none_iff] at htake
      rw [htake, Option.map_none]
  | case4 cursor message line hline longer htake rest ih =>
    obtain ⟨text, htext, hstop, hresume⟩ := ih
    refine ⟨text, htext, hstop, ?_⟩
    rw [← hresume]
    refine resume_of_take? hline ?_
    rw [takeMessage_eq, Except.ok.injEq, Option.ite_none_left_eq_some] at htake
    obtain ⟨hends, htake⟩ := htake
    obtain ⟨m, rfl, rfl⟩ := Option.map_eq_some_iff.1 htake
    rw [take?_of_pending?_eq_none rfl, continueMessage?_opened, if_neg hends]
    rfl

/-- What a reader by descent makes of a line as a frame. -/
theorem take?_frame (hphase : phase.takesFrames = true) {f : Failure Nat} {line : Text}
    (hends : (p.opened f phase).continueMessage? codec line = none) (i : Nat)
    (outer : List OpenFailure) (next : Nat) :
    match takeFrame p.depth i line f.frames with
    | .error halt => ∃ e, halt = .refused e ∧
        take? codec i line ⟨p.opened f phase, outer, next⟩ = some (.error e)
    | .ok none => ∀ rest, Mark.ofLine? p.depth line ≠ some (.frame rest)
    | .ok (some frames) => take? codec i line ⟨p.opened f phase, outer, next⟩ =
        some (.ok ⟨p.opened { f with frames } .frames, outer, next⟩) := by
  have hclosed := Phase.pending?_of_takesRelations (Phase.takesRelations_of_takesFrames hphase)
  by_cases hframe : ∃ rest, Mark.ofLine? p.depth line = some (.frame rest)
  · obtain ⟨rest, hrest⟩ := hframe
    rw [takeFrame_of_frame hrest, take?_opened hclosed hends, hrest]
    simp only [Option.bind_some, takeMark?, Place.phase_opened, hphase, if_true]
    cases Frame.read rest with
    | error e => exact ⟨_, rfl, rfl⟩
    | ok frame => rfl
  · rw [takeFrame_of_not_frame fun rest hrest => hframe ⟨rest, hrest⟩]
    exact fun rest hrest => hframe ⟨rest, hrest⟩

/-- Whether a line is neither one of a failure's message nor one of its frames. -/
def NoFrame (codec : Codec) (f : OpenFailure) (line : Text) : Prop :=
  f.continueMessage? codec line = none ∧ ∀ rest, Mark.ofLine? f.depth line ≠ some (.frame rest)

theorem resume_frames (f : Failure Nat) (outer : List OpenFailure) (next : Nat) {frames : List Frame}
    (hphase : phase.takesFrames = true)
    (hends : ∀ line ∈ lines[cursor]?,
      (p.opened { f with frames } phase).continueMessage? codec line = none) :
    match (eachLine lines (takeFrame p.depth) cursor frames).result with
    | .error halt =>
      resume codec lines cursor ⟨p.opened { f with frames } phase, outer, next⟩ = .error halt
    | .ok own => ∃ later : Phase, later.takesFrames = true ∧
        (∀ line ∈ lines[(eachLine lines (takeFrame p.depth) cursor frames).cursor]?,
          NoFrame codec (p.opened { f with frames := own } later) line) ∧
        resume codec lines cursor ⟨p.opened { f with frames } phase, outer, next⟩ =
          resume codec lines (eachLine lines (takeFrame p.depth) cursor frames).cursor
            ⟨p.opened { f with frames := own } later, outer, next⟩ := by
  fun_induction eachLine lines (takeFrame p.depth) cursor frames generalizing phase with
  | case1 cursor frames hline =>
    exact ⟨phase, hphase, fun line h => by simp [hline] at h, rfl⟩
  | case2 cursor frames line hline halt htake =>
    have hspec := take?_frame hphase (hends line hline) cursor outer next
    rw [htake] at hspec
    obtain ⟨e, rfl, hspec⟩ := hspec
    exact resume_of_take?_error hline hspec
  | case3 cursor frames line hline htake =>
    have hspec := take?_frame hphase (hends line hline) cursor outer next
    rw [htake] at hspec
    refine ⟨phase, hphase, fun found hfound => ?_, rfl⟩
    obtain rfl : line = found := Option.some.inj (hline.symm.trans hfound)
    exact ⟨hends line hline, hspec⟩
  | case4 cursor frames line hline longer htake rest =>
    rename_i ih
    have hspec := take?_frame hphase (hends line hline) cursor outer next
    rw [htake] at hspec
    rw [resume_of_take? hline hspec]
    -- behind a frame no line goes on with the message
    refine ih rfl fun line _ => ?_
    exact continueMessage?_of_ne (by simp) _ line

variable (codec lines) in
/-- What a reader by descent makes of the line at the cursor as an elision. -/
theorem resume_elision (next cursor : Nat) (hp : p.Within outer) (f : Failure Nat)
    (hphase : phase.takesFrames = true) :
    match takeElision lines p cursor with
    | .error halt => resume codec lines cursor ⟨p.opened f phase, outer, next⟩ = .error halt
    | .ok none => ∀ line ∈ lines[cursor]?, ∀ count, Mark.ofLine? p.depth line ≠ some (.elision count)
    | .ok (some shared) => resume codec lines cursor ⟨p.opened f phase, outer, next⟩ =
        resume codec lines (cursor + 1)
          ⟨p.opened { f with frames := f.frames ++ shared } .relations, outer, next⟩ := by
  cases helision : lines[cursor]?.bind fun line =>
      (line.after? (Mark.indent p.depth)).bind Mark.elided? with
  | none =>
    rw [takeElision, helision]
    intro line hline count hmark
    rw [hline, Option.bind_some, Mark.ofLine?_eq_elision_iff.1 hmark] at helision
    cases helision
  | some count =>
    obtain ⟨line, hline, hcount⟩ := Option.bind_eq_some_iff.1 helision
    have htake : take? codec cursor line ⟨p.opened f phase, outer, next⟩ =
        some (expand ⟨p.opened f phase, outer, next⟩ cursor count) :=
      take?_of_elision hphase (Mark.ofLine?_eq_elision_iff.2 hcount) cursor
    rw [takeElision, helision, hp.enclosing_eq]
    cases outer with
    | nil => exact resume_of_take?_error hline htake
    | cons parent outer =>
      rw [expand] at htake
      dsimp only at htake
      by_cases hle : count ≤ parent.node.frames.length
      · rw [if_pos hle] at htake
        simp only [List.head?_cons, Option.map_some, if_pos hle, difference?, Option.bind_some,
          sliceFrom?, Nat.sub_le, if_true]
        exact resume_of_take? hline htake
      · rw [if_neg hle] at htake
        simp only [List.head?_cons, Option.map_some, if_neg hle]
        exact resume_of_take?_error hline htake

/-- Whether a line goes on with a failure in no other way than that something hangs off it. -/
structure Branching (codec : Codec) (f : OpenFailure) (line : Text) : Prop where
  ends : f.continueMessage? codec line = none
  mark (early : f.phase.takesFrames = true) :
    (∀ rest, Mark.ofLine? f.depth line ≠ some (.frame rest)) ∧
      ∀ count, Mark.ofLine? f.depth line ≠ some (.elision count)

theorem branching_relations (f : Failure Nat) (line : Text) :
    Branching codec (p.opened f .relations) line where
  ends := continueMessage?_of_ne (by simp) f line
  mark early := by simp [Phase.takesFrames] at early

variable (codec lines) in
theorem resume_readHead (hp : p.Within outer) (f : Failure Nat) (cursor next : Nat) :
    match readHead codec lines p f cursor with
    | (.error halt, _) =>
      resume codec lines cursor ⟨p.opened f .message, outer, next⟩ = .error halt
    | (.ok g, call) => ∃ phase : Phase, phase.takesRelations = true ∧
        (∀ line ∈ lines[call.exit]?, Branching codec (p.opened g phase) line) ∧
        resume codec lines cursor ⟨p.opened f .message, outer, next⟩ =
          resume codec lines call.exit ⟨p.opened g phase, outer, next⟩ := by
  obtain ⟨id, typeName, message, frames, origin, suppressed, cause⟩ := f
  obtain ⟨text, htext, hends, hmessage⟩ := resume_message codec lines p
    ⟨id, typeName, message, frames, origin, suppressed, cause⟩ outer next cursor message
  have hframes := resume_frames ⟨id, typeName, text, frames, origin, suppressed, cause⟩ outer next rfl
    hends
  rw [readHead]
  dsimp only
  generalize eachLine lines (takeMessage codec p.depth) cursor message = message at *
  generalize eachLine lines (takeFrame p.depth) message.cursor frames = frames at *
  obtain ⟨result, turns, stop⟩ := frames
  simp only [htext]
  cases result with
  | error halt => exact hmessage.trans hframes
  | ok own =>
    obtain ⟨later, hlater, hno, hframes⟩ := hframes
    have helision := resume_elision codec lines next stop hp
      ⟨id, typeName, text, own, origin, suppressed, cause⟩ hlater
    dsimp only
    generalize takeElision lines p stop = elision at *
    cases elision with
    | error halt => exact hmessage.trans (hframes.trans helision)
    | ok shared =>
      cases shared with
      | none =>
        refine ⟨later, Phase.takesRelations_of_takesFrames hlater, fun line hline => ?_,
          hmessage.trans hframes⟩
        exact ⟨(hno line hline).1, fun _ => ⟨(hno line hline).2, helision line hline⟩⟩
      | some shared =>
        exact ⟨.relations, rfl, fun line _ => branching_relations _ line,
          hmessage.trans (hframes.trans helision)⟩

/-! ## Circular references -/

theorem tokenAt?_eq_some_iff {depth : Nat} {token t : Text} :
    tokenAt? lines depth token cursor = some t ↔
      lines[cursor]? = some (Mark.indent depth ++ token ++ t) := by
  rw [tokenAt?, Option.bind_eq_some_iff]
  simp only [bind_after?_eq_some_iff]
  constructor
  · rintro ⟨line, h, rfl⟩
    exact h
  · intro h
    exact ⟨_, h, rfl⟩

theorem resume_row {mark : Mark} {f : Failure Nat} {s : ParserState}
    (hmark : ∀ count, mark ≠ .elision count) (hphase : phase.takesRelations = true)
    (h : lines[cursor]? = some (mark.row p.depth))
    (htake : takeMark? codec cursor ⟨p.opened f phase, outer, next⟩ mark = some (.ok s)) :
    resume codec lines cursor ⟨p.opened f phase, outer, next⟩ = resume codec lines (cursor + 1) s :=
  resume_of_take? h
    ((take?_row hmark (Phase.pending?_of_takesRelations hphase) rfl cursor).trans htake)

theorem target?_eq (hp : p.Within outer) (f : Failure Nat) (phase : Phase) (next : Nat)
    (display : Text) :
    (ParserState.target? ⟨p.opened f phase, outer, next⟩ display).map Failure.link =
      (target? p f display).map (⟨·, display⟩) := by
  have hscope : scopeOf outer = (outer.map OpenFailure.node).map Failure.scopeEntry := by
    rw [scopeOf, List.map_map]
    rfl
  have hfind : (scopeOf outer).find? (·.2 = display) =
      ((outer.map OpenFailure.node).find? (·.displayText = display)).map Failure.scopeEntry := by
    rw [hscope, List.find?_map]
    rfl
  rw [ParserState.target?, target?, hp.above_eq, hfind, List.map_append, List.find?_append]
  cases hfound : (outer.map OpenFailure.node).find? (·.displayText = display) with
  | some g =>
    have hdisplay : g.displayText = display := by simpa using List.find?_some hfound
    rw [← hdisplay]
    rfl
  | none =>
    by_cases hown : f.displayText = display
    · rw [if_pos hown, ← hown]
      simp [Place.opened, OpenFailure.node, Failure.link]
    · simp [Place.opened, OpenFailure.node, hown]

/-- What the lines behind a circular reference give. -/
def resumeReference (codec : Codec) (lines : List Text) (p : Place) (f : Failure Nat)
    (outer : List OpenFailure) (next start : Nat) :
    Except Text (BackRef Nat × Nat) → Except Halt (Failure Nat)
  | .error display => .error (.refused (.unresolvedCircularReference start display))
  | .ok (link, taken) => resume codec lines (start + taken)
      ⟨p.opened { f with cause := .backRef link } .complete, outer, next⟩

section References
variable (hp : p.Within outer) (f : Failure Nat) (next start : Nat) (first : Text)
include hp

/-- The reference is closed, or it stays open for what is behind its line. -/
theorem resume_refer {offset : Nat} {text new : Text} {behind : List Text} {line : Text}
    (hnew : new = if offset = 0 then text else text ++ codec.config.terminator ++ line)
    (hopen : ∀ unresolved, resume codec lines (start + (offset + 1))
        ⟨p.opened f (.circular ⟨start, first, new, unresolved⟩), outer, next⟩ =
      resumeReference codec lines p f outer next start
        (closeReference codec p f first (offset + 1) new unresolved behind))
    (phase : Phase) (unresolved : Option Text) :
    resume codec lines (start + (offset + 1))
        (refer ⟨p.opened f phase, outer, next⟩ ⟨start, first, new, unresolved⟩) =
      resumeReference codec lines p f outer next start
        (closeReference codec p f first offset text unresolved (line :: behind)) := by
  rw [closeReference, refer, ← hnew]
  dsimp only
  cases new.before? Mark.circularClose with
  | none => exact hopen unresolved
  | some display =>
    have htarget := target?_eq hp f phase next display
    dsimp only
    cases hfound : ParserState.target? ⟨p.opened f phase, outer, next⟩ display with
    | none =>
      rw [hfound, Option.map_none, eq_comm, Option.map_eq_none_iff] at htarget
      rw [htarget]
      exact hopen (unresolved <|> some display)
    | some g =>
      rw [hfound, Option.map_some, eq_comm, Option.map_eq_some_iff] at htarget
      obtain ⟨id, htarget, hlink⟩ := htarget
      simp only [htarget, ← hlink]
      rfl

/-- A reference that is open goes on to the line that closes it. -/
theorem resume_circular {behind : List Text} {offset : Nat} {text : Text} {unresolved : Option Text}
    (hbehind : lines.drop (start + (offset + 1)) = behind) :
    resume codec lines (start + (offset + 1))
        ⟨p.opened f (.circular ⟨start, first, text, unresolved⟩), outer, next⟩ =
      resumeReference codec lines p f outer next start
        (closeReference codec p f first (offset + 1) text unresolved behind) := by
  induction behind generalizing offset text unresolved with
  | nil =>
    rw [resume_of_none (List.getElem?_eq_none_iff.2 (List.drop_eq_nil_iff.1 hbehind))]
    rfl
  | cons line behind ih =>
    have hline : lines[start + (offset + 1)]? = some line := by
      rw [← List.head?_drop, hbehind, List.head?_cons]
    have hrest : lines.drop (start + (offset + 1 + 1)) = behind := by
      rw [← Nat.add_assoc, ← List.drop_drop, hbehind, List.drop_one, List.tail_cons]
    rw [resume_of_take? hline (take?_of_pending? rfl)]
    exact resume_refer hp f next start first (if_neg (Nat.succ_ne_zero offset)).symm
      (fun _ => ih hrest) _ unresolved

variable (codec) in
/-- The reference that begins at the cursor is read to its end. -/
theorem resume_takeReference (hphase : phase.takesRelations = true)
    (h : tokenAt? lines p.depth ('\t' :: Mark.circularToken) start = some first) :
    match takeReference codec lines p f first start with
    | .error halt => resume codec lines start ⟨p.opened f phase, outer, next⟩ = .error halt
    | .ok (link, taken) => resume codec lines start ⟨p.opened f phase, outer, next⟩ =
        resume codec lines (start + taken)
          ⟨p.opened { f with cause := .backRef link } .complete, outer, next⟩ := by
  have hlt := lt_length_of_tokenAt? h
  rw [tokenAt?_eq_some_iff, ← Mark.row_circular] at h
  have hdrop : lines.drop start = (Mark.circular first).row p.depth :: lines.drop (start + (0 + 1)) := by
    rw [List.drop_eq_getElem_cons hlt, (List.getElem?_eq_some_iff.1 h).2]
  have hresume : resume codec lines start ⟨p.opened f phase, outer, next⟩ =
      resumeReference codec lines p f outer next start
        (closeReference codec p f first 0 first none (lines.drop start)) := by
    rw [resume_row (by simp) hphase h (if_pos hphase), hdrop]
    exact resume_refer hp f next start first (if_pos rfl).symm
      (fun _ => resume_circular hp f next start first rfl) phase none
  rw [takeReference, sliceFrom?, if_pos (Nat.le_of_lt hlt)]
  dsimp only
  generalize closeReference codec p f first 0 first none (lines.drop start) = closed at *
  cases closed <;> exact hresume

end References

/-! ## Calls -/

section Calls
variable {header : Text}

theorem resume_suppressed (hphase : phase.takesRelations = true) (f : Failure Nat)
    (h : tokenAt? lines p.depth ('\t' :: Mark.suppressedToken) cursor = some header) :
    resume codec lines cursor ⟨p.opened f phase, outer, next⟩ = resume codec lines (cursor + 1)
      ⟨.ofHeader codec (p.depth + 1) .suppressed next header, p.opened f phase :: outer, next + 1⟩ := by
  rw [tokenAt?_eq_some_iff, ← Mark.row_suppressed] at h
  exact resume_row (by simp) hphase h (if_pos hphase)

theorem resume_causedBy (hphase : phase.takesRelations = true) (f : Failure Nat)
    (h : tokenAt? lines p.depth Mark.causedByToken cursor = some header) :
    resume codec lines cursor ⟨p.opened f phase, outer, next⟩ = resume codec lines (cursor + 1)
      ⟨.ofHeader codec p.depth .cause next header, p.opened f phase :: outer, next + 1⟩ := by
  rw [tokenAt?_eq_some_iff, ← Mark.row_causedBy] at h
  exact resume_row (by simp) hphase h (if_pos hphase)

/-- A failure off which nothing more hangs has been read to its end. -/
theorem resume_nothing (hphase : phase.takesRelations = true) (f : Failure Nat)
    (hbranching : ∀ line ∈ lines[cursor]?, Branching codec (p.opened f phase) line)
    (hsuppressed : tokenAt? lines p.depth ('\t' :: Mark.suppressedToken) cursor = none)
    (hcircular : tokenAt? lines p.depth ('\t' :: Mark.circularToken) cursor = none)
    (hcause : tokenAt? lines p.depth Mark.causedByToken cursor = none) :
    resume codec lines cursor ⟨p.opened f phase, outer, next⟩ =
      resume codec lines cursor ⟨p.opened f .complete, outer, next⟩ := by
  have hclosed := Phase.pending?_of_takesRelations hphase
  refine resume_complete hclosed fun line hline => ?_
  obtain ⟨hends, hearly⟩ := hbranching line hline
  rw [take?_opened hclosed hends, Option.bind_eq_none_iff]
  intro mark hmark
  cases mark with
  | frame rest => exact if_neg fun early => (hearly early).1 rest hmark
  | elision count => exact if_neg fun early => (hearly early).2 count hmark
  | suppressed header =>
    rw [Option.mem_def, (Mark.ofLine?_eq_some_iff (by simp)).1 hmark, Mark.row_suppressed,
      ← tokenAt?_eq_some_iff] at hline
    cases hsuppressed.symm.trans hline
  | circular first =>
    rw [Option.mem_def, (Mark.ofLine?_eq_some_iff (by simp)).1 hmark, Mark.row_circular,
      ← tokenAt?_eq_some_iff] at hline
    cases hcircular.symm.trans hline
  | causedBy header =>
    rw [Option.mem_def, (Mark.ofLine?_eq_some_iff (by simp)).1 hmark, Mark.row_causedBy,
      ← tokenAt?_eq_some_iff] at hline
    cases hcause.symm.trans hline

/-- What the lines behind a call give, which is left with the failure read to its end. -/
def Outcome.resume (codec : Codec) (lines : List Text) (p : Place) (outer : List OpenFailure)
    (o : Outcome) : Except Halt (Failure Nat) :=
  o.result.bind fun f => ParserState.resume codec lines o.cursor ⟨p.opened f .complete, outer, o.next⟩

theorem resume_closed (codec : Codec) (lines : List Text) : Closed codec lines
    (fun p next header cursor o => ∀ outer, p.Within outer →
      resume codec lines cursor ⟨.ofHeader codec p.depth p.relation next header, outer, next + 1⟩ =
        o.resume codec lines p outer)
    (fun p f next cursor b => ∀ outer phase, p.Within outer → phase.takesRelations = true →
      (∀ line ∈ lines[cursor]?, Branching codec (p.opened f phase) line) →
        resume codec lines cursor ⟨p.opened f phase, outer, next⟩ = b.resume codec lines p outer) where
  refused {p next header cursor halt call} head outer hp := by
    have hhead := resume_readHead codec lines hp
      (OpenFailure.ofHeader codec p.depth p.relation next header).node cursor (next + 1)
    rw [head] at hhead
    exact hhead
  failure {p next header cursor f call b} head below outer hp := by
    have hhead := resume_readHead codec lines hp
      (OpenFailure.ofHeader codec p.depth p.relation next header).node cursor (next + 1)
    rw [head] at hhead
    obtain ⟨phase, hphase, hbranching, hresume⟩ := hhead
    exact hresume.trans (below outer phase hp hphase hbranching)
  suppressed_refused {p f next cursor header o halt} token child result outer phase hp hphase _ := by
    rw [resume_suppressed hphase f token]
    refine (child _ (hp.below _ _ f phase)).trans ?_
    rw [Outcome.resume, Outcome.resume, result]
    rfl
  suppressed {p f s next cursor header o b} token child result rest outer phase hp hphase _ := by
    rw [resume_suppressed hphase f token]
    refine (child _ (hp.below _ _ f phase)).trans ?_
    rw [Outcome.resume, result]
    -- the failure that has been read takes no line, so it is part of the one that it hangs off
    refine (resume_attach rfl fun line _ => take?_complete rfl _ line _ _).trans ?_
    exact rest outer .relations hp rfl fun line _ => branching_relations _ line
  circular_refused {p f next cursor first halt} token reference outer phase hp hphase _ := by
    have hresume := resume_takeReference codec hp f next cursor first hphase token
    rw [reference] at hresume
    exact hresume
  circular {p f next cursor taken first link} token reference outer phase hp hphase _ := by
    have hresume := resume_takeReference codec hp f next cursor first hphase token
    rw [reference] at hresume
    exact hresume
  cause_refused {p f next cursor header o halt} token child result outer phase hp hphase _ := by
    rw [resume_causedBy hphase f token]
    refine (child _ (hp.below _ _ f phase)).trans ?_
    rw [Outcome.resume, Outcome.resume, result]
    rfl
  cause {p f c next cursor header o} token child result outer phase hp hphase _ := by
    rw [resume_causedBy hphase f token]
    refine (child _ (hp.below _ _ f phase)).trans ?_
    rw [Outcome.resume, result]
    exact resume_attach rfl fun line _ => take?_complete rfl _ line _ _
  nothing {p f next cursor} no_suppressed no_circular no_cause outer phase _ hphase hbranching :=
    resume_nothing hphase f hbranching no_suppressed no_circular no_cause

variable (codec lines) in
theorem resume_readFailure (hp : p.Within outer) (next : Nat) (header : Text) (cursor : Nat) :
    resume codec lines cursor ⟨.ofHeader codec p.depth p.relation next header, outer, next + 1⟩ =
      (readFailure codec lines p next header cursor).1.resume codec lines p outer :=
  (resume_closed codec lines).of_readFailure p next header cursor outer hp

end Calls

/-! ## Texts -/

/-- Behind the root no line can be taken. -/
theorem resume_root (f : Failure Nat) (p : Place) (next cursor : Nat) :
    resume codec lines cursor ⟨p.opened f .complete, [], next⟩ =
      if cursor < lines.length then .error (.refused (.unknownLineFormat cursor)) else .ok f := by
  split
  · next hlt =>
    rw [resume_of_some (List.getElem?_eq_getElem hlt), step, feed, take?_complete rfl]
    rfl
  · next hle =>
    rw [resume_of_none (List.getElem?_eq_none_iff.2 (Nat.le_of_not_lt hle))]
    rfl

/-- Reading by descent refuses what reading one line at a time refuses, and otherwise gives the same
graph. -/
theorem result_read (codec : Codec) (lines : List Text) (first : Nat) :
    (read codec lines first).result = (codec.ofLines first lines).mapError Halt.refused := by
  cases lines with
  | nil => rfl
  | cons header rest =>
    by_cases hne : header = []
    · subst hne
      rfl
    have hroot : Place.Within ⟨0, .root, [], none⟩ [] := ⟨rfl, rfl⟩
    rw [Codec.ofLines.eq_3 _ _ _ _ hne, read.eq_3 _ _ _ _ hne]
    refine Eq.trans ?_ (resume_readFailure codec (header :: rest) hroot first header 1).symm
    generalize (readFailure codec (header :: rest) ⟨0, .root, [], none⟩ first header 1).1 = o
    obtain ⟨result, next, cursor, calls⟩ := o
    cases result with
    | error halt => rfl
    | ok f =>
      rw [Outcome.resume]
      refine Eq.trans ?_ (resume_root f _ next cursor).symm
      dsimp only
      split <;> rfl

end Descent

theorem Frame.read_ne_outOfBounds (t : Text) : Frame.read t ≠ .error .outOfBounds := by
  intro h
  rw [read] at h
  split at h
  · cases h
  · next name rest _ =>
    split at h
    · cases h
    · rw [readName] at h
      split at h
      · cases h
      · split_ifs at h <;> cases h

/-- No index is out of range. The cuts by positions in a frame and in a line are in range and give
what reading without positions gives, a frame begins at a character behind its tabs and its token,
and reading by descent ends with no index out of range in any list, whatever the text. -/
theorem read_inRange (codec : Codec) (first : Nat) (t : Text) :
    (∀ line start, Frame.readByPositionsAt? line start = some (Frame.readAt line start)) ∧
      (∀ depth line, Mark.endsMessageByPosition? depth line = some (Mark.endsMessage depth line)) ∧
      (∀ depth line rest, Mark.ofLine? depth line = some (.frame rest) →
        line.dropBytes? (depth + 4) = some rest) ∧
      (Descent.read codec t.lines first).result =
        (codec.decodeFrom first t).mapError Halt.refused ∧
      (Descent.read codec t.lines first).result ≠ .error .outOfRange ∧
      ∀ line, codec.decodeFrom first t ≠ .error (.malformedFrame line .outOfBounds) := by
  refine ⟨Frame.readByPositionsAt?_eq_some, Mark.endsMessageByPosition?_eq_some,
    fun _ _ _ => Mark.dropBytes?_of_frame, Descent.result_read codec t.lines first, ?_, ?_⟩
  · intro h
    rw [Descent.result_read] at h
    cases hread : codec.ofLines first t.lines <;> rw [hread] at h <;> cases h
  · intro line h
    obtain ⟨-, ⟨_, -, tabs, rest, -, hread⟩, -⟩ := Codec.ofLines_error_local h rfl
    exact Frame.read_ne_outOfBounds rest hread

/-! A graph with a message of two lines, a frame that is left out and a link of two lines. -/

def nestedText : Text :=
  Text.ofRows ['\n'] ["A: é".toList, "x".toList, "\tat ü.run(S.java:3)".toList,
    "\tSuppressed: B".toList, "\t\tat p.q(Native Method)".toList, "\t\t\t... 1 more".toList,
    "\t\t[CIRCULAR REFERENCE:A: é".toList, "x]".toList, "Caused by: C".toList]

def nested : Failure Nat :=
  let shared : Frame := ⟨['ü'], "run".toList, some "S.java".toList, .number 3⟩
  let beside : Failure Nat :=
    { Failure.ofType 1 ['B'] with
      frames := [⟨['p'], ['q'], none, .native⟩, shared], cause := .backRef ⟨0, "A: é\nx".toList⟩ }
  { Failure.ofType 0 ['A'] with
    message := some "é\nx".toList, frames := [shared], suppressed := [beside]
    cause := .owned (Failure.ofType 2 ['C']) }

theorem read_inRange_nested :
    Mark.ofLine? 1 "\t\tat p.q(Native Method)".toList = some (.frame "p.q(Native Method)".toList) ∧
    Text.dropBytes? "\t\tat p.q(Native Method)".toList 5 = some "p.q(Native Method)".toList ∧
    (Descent.read {} nestedText.lines 0).result = .ok nested := by
  have hmark : Mark.ofLine? 1 "\t\tat p.q(Native Method)".toList =
    some (.frame "p.q(Native Method)".toList) := rfl
  have hgraph : Codec.decodeFrom {} 0 nestedText = .ok nested := rfl
  obtain ⟨-, -, hoffset, hresult, -⟩ := read_inRange {} 0 nestedText
  rw [hgraph] at hresult
  exact ⟨hmark, hoffset 1 _ _ hmark, hresult⟩

end Stacktrace
