import Stacktrace.Proofs.CanonicalFrames
import Stacktrace.Proofs.Reprint
import Stacktrace.Proofs.TrailingRuns

/-!
# Texts that are written once they have been read

A graph that has been read is written as a text that need not be the one it was read from: elisions
become frames and frames take the form in which they are written. It is a text with the same graph,
which is written as this text again (`decodeFrom_encode_of_decodeFrom`). While a text is read, the
rows of the open failures are lines that bring a second run to where the first one is (`Rewrite`).
-/

namespace Stacktrace

/-- Whether a frame is read from what it is written as, which is a single line. -/
structure Frame.Canonical (f : Frame) : Prop where
  read_render : Frame.read f.render = .ok f
  lineFeed_not_mem : '\n' ∉ f.render

/-- Whether a line has no line end in it, nor the first character of one at its end, and ends with a
closing parenthesis if it looks like a frame. -/
structure Text.Tidy (line : Text) : Prop where
  lineFeed_not_mem : '\n' ∉ line
  getLast?_ne : line.getLast? ≠ some '\r'
  frame : line.head? = some '\t' →
    startsWith (line.dropWhile (· = '\t')) Mark.atToken = true → line.getLast? = some ')'

theorem Text.Tidy.rowFor {line : Text} (h : line.Tidy) (terminator : Text) :
    Text.RowFor terminator line :=
  ⟨h.lineFeed_not_mem, fun _ => h.getLast?_ne⟩

theorem Text.Tidy.canonical {line rest : Text} {frame : Frame} {depth : Nat} (h : line.Tidy)
    (hmark : Mark.ofLine? depth line = some (.frame rest)) (hread : Frame.read rest = .ok frame) :
    frame.Canonical := by
  have hrow := Mark.eq_row_of_ofLine? hmark (by simp)
  rw [Mark.row, ← Mark.indent_succ_append] at hrow
  have hne : rest ≠ [] := by
    rintro rfl
    cases hread
  have hdrop : line.dropWhile (· = '\t') = Mark.atToken ++ rest := by
    rw [hrow, Mark.indent, List.dropWhile_append_of_pos (by simp)]
    rfl
  have hlast : rest.getLast? = some ')' := by
    have hline := h.frame (by rw [hrow]; rfl) (by rw [hdrop]; exact Mark.startsWith_append _ _)
    rwa [hrow, ← List.append_assoc, List.getLast?_append_of_ne_nil _ hne] at hline
  refine ⟨Frame.read_render hread hlast, Frame.lineFeed_not_mem_render hread fun hmem => ?_⟩
  rw [hrow] at h
  exact h.lineFeed_not_mem (List.mem_append_right _ (List.mem_append_right _ hmem))

theorem Frame.Canonical.rowFor {frame : Frame} (h : frame.Canonical) (depth : Nat)
    (terminator : Text) : Text.RowFor terminator (Failure.frameRow depth frame) := by
  have hstart : '\n' ∉ Mark.indent depth ++ '\t' :: Mark.atToken :=
    (Mark.plain_indent_append depth (by decide)).2
  have hrow : Failure.frameRow depth frame =
      Mark.indent depth ++ '\t' :: Mark.atToken ++ frame.render := by simp [Failure.frameRow]
  rw [hrow]
  refine ⟨fun hmem => (List.mem_append.1 hmem).elim hstart h.lineFeed_not_mem, fun _ hlast => ?_⟩
  have hne : frame.render ≠ [] := by simp [Frame.render]
  rw [List.getLast?_append_of_ne_nil _ hne, Frame.getLast?_render] at hlast
  exact absurd hlast (by decide)

namespace ParserState
open OpenFailure

def FramesCanonical (s : ParserState) : Prop :=
  ∀ f ∈ s.current :: s.parents, ∀ frame ∈ f.node.frames, frame.Canonical

namespace FramesCanonical
variable {s : ParserState}

theorem update (h : s.FramesCanonical) {f : OpenFailure}
    (hf : ∀ frame ∈ f.node.frames, frame.Canonical) :
    FramesCanonical { s with current := f } :=
  List.forall_mem_cons.2 ⟨hf, (List.forall_mem_cons.1 h).2⟩

theorem addFrames (h : s.FramesCanonical) {frames : List Frame}
    (hframes : ∀ frame ∈ frames, frame.Canonical) (phase : Phase) :
    FramesCanonical { s with current := s.current.addFrames frames phase } :=
  h.update (List.forall_mem_append.2 ⟨(List.forall_mem_cons.1 h).1, hframes⟩)

theorem descend (h : s.FramesCanonical) (codec : Codec) (depth : Nat) (relation : Relation)
    (header : Text) : (s.descend codec depth relation header).FramesCanonical :=
  List.forall_mem_cons.2 ⟨List.forall_mem_nil _, h⟩

theorem refer (h : s.FramesCanonical) (pending : PendingReference) :
    (s.refer pending).FramesCanonical := by
  have hcurrent := (List.forall_mem_cons.1 h).1
  rcases refer_cases s pending with ⟨still, -, hrefer⟩ | ⟨display, f, -, -, hrefer⟩ <;> rw [hrefer]
  · exact h.update hcurrent
  · exact h.update hcurrent

theorem attach {child parent : OpenFailure} {outer : List OpenFailure} {next : Nat}
    (h : FramesCanonical ⟨child, parent :: outer, next⟩) :
    FramesCanonical ⟨parent.attach child, outer, next⟩ := by
  obtain ⟨-, hparent, houter⟩ := List.forall_mem_cons.1 h |>.imp_right List.forall_mem_cons.1
  refine List.forall_mem_cons.2 ⟨?_, houter⟩
  rw [OpenFailure.attach]
  split <;> exact hparent

end FramesCanonical

theorem canonical_of_elision {s : ParserState} (h : s.FramesCanonical) {parent : OpenFailure}
    {outer : List OpenFailure} (hparents : s.parents = parent :: outer) (n : Nat) :
    ∀ frame ∈ parent.node.frames.drop n, frame.Canonical := by
  intro frame hframe
  refine h parent (List.mem_cons_of_mem _ ?_) frame (List.mem_of_mem_drop hframe)
  rw [hparents]
  exact List.mem_cons_self

theorem FramesCanonical.takes {codec : Codec} {line : Nat} {text : Text} {s s' : ParserState}
    (h : s.FramesCanonical) (htidy : text.Tidy) (htakes : Takes codec line text s s') :
    s'.FramesCanonical := by
  cases htakes with
  | message => exact h.update (List.forall_mem_cons.1 h).1
  | frame _ hmark hread =>
    exact h.addFrames (List.forall_mem_singleton.2 (htidy.canonical hmark hread)) _
  | elision _ _ hparents => exact h.addFrames (canonical_of_elision h hparents _) _
  | suppressed => exact h.descend codec _ _ _
  | causedBy => exact h.descend codec _ _ _
  | circular => exact h.refer _
  | continued => exact h.refer _

/-- What a line does to a state is done by the rows that are written for it. -/
theorem exists_run_of_takes {codec : Codec} (hindicator : codec.config.indicator = [])
    {line first : Nat} {text : Text} {s s' s₁ : ParserState} {f₁ : OpenFailure}
    {outer₁ : List OpenFailure} (hsound : s.Sound first) (hcanonical : s.FramesCanonical)
    (htidy : text.Tidy) (htakes : Takes codec line text s s') (htrails : s₁.Trails s f₁ outer₁)
    (line₁ : Nat) : ∃ more s₂, run codec line₁ more s₁ = .ok s₂ ∧ s₂.Level s' ∧
      (∀ row ∈ more, Text.RowFor codec.config.terminator row) ∧
      Text.ofRows codec.config.terminator s'.rows =
        Text.ofRows codec.config.terminator (s.rows ++ more) := by
  have hsame : ∀ row ∈ [text], Text.RowFor codec.config.terminator row :=
    List.forall_mem_singleton.2 (htidy.rowFor _)
  cases htakes with
  | message hphase hmessage hgoesOn =>
    obtain ⟨s₂, hrun, hlevel⟩ := htrails.run_goOn line₁ hphase hmessage hgoesOn
    refine ⟨[text], s₂, hrun, hlevel, hsame, ?_⟩
    rw [hsound.ofRows_goOn codec hphase hmessage]
    simp
  | @frame rest frame hphase hmark hread =>
    have hframe := htidy.canonical hmark hread
    obtain ⟨s₂, hrun, hlevel⟩ := htrails.run_frameRows codec line₁ hphase (.inl rfl)
      (List.forall_mem_singleton.2 hframe.read_render)
    refine ⟨_, s₂, hrun, hlevel, ?_, ?_⟩
    · exact List.forall_mem_map.2 (List.forall_mem_singleton.2 (hframe.rowFor _ _))
    · rw [hsound.rows_addFrames hphase _ rfl]
  | @elision count parent outer hphase hmark hparents =>
    have hframes := canonical_of_elision hcanonical hparents (parent.node.frames.length - count)
    obtain ⟨s₂, hrun, hlevel⟩ := htrails.run_frameRows codec line₁ hphase (.inr rfl)
      fun frame hframe => (hframes frame hframe).read_render
    refine ⟨_, s₂, hrun, hlevel, ?_, ?_⟩
    · exact List.forall_mem_map.2 fun frame hframe => (hframes frame hframe).rowFor _ _
    · rw [hsound.rows_addFrames hphase _ rfl]
  | suppressed hphase hmark =>
    have hrow := Mark.eq_row_of_ofLine? hmark (by simp)
    obtain ⟨s₂, hrun, hlevel⟩ := htrails.run_suppressed line₁ hphase _
    refine ⟨[text], s₂, hrow ▸ hrun, hlevel, hsame, ?_⟩
    rw [rows_suppressed hindicator hphase, ← hrow]
  | causedBy hphase hmark =>
    have hrow := Mark.eq_row_of_ofLine? hmark (by simp)
    obtain ⟨s₂, hrun, hlevel⟩ := htrails.run_causedBy line₁ hphase _
    refine ⟨[text], s₂, hrow ▸ hrun, hlevel, hsame, ?_⟩
    rw [rows_causedBy hindicator hphase, ← hrow]
  | @circular rest hphase hmark =>
    have hrow := Mark.eq_row_of_ofLine? hmark (by simp)
    obtain ⟨s₂, hrun, hlevel⟩ := htrails.run_circular line₁ hphase ⟨line, rest, rest, none⟩
    refine ⟨[text], s₂, hrow ▸ hrun, hlevel, hsame, ?_⟩
    rw [hsound.rows_circular hphase, ← hrow]
  | continued hphase =>
    obtain ⟨s₂, hrun, hlevel⟩ := htrails.run_continued line₁ hphase text
    refine ⟨[text], s₂, hrun, hlevel, hsame, ?_⟩
    rw [hsound.ofRows_continued codec hphase]
    simp

/-- Lines that are written as what a state has read, and bring a second run to the same place. -/
structure Rewrite (codec : Codec) (first : Nat) (s : ParserState) where
  header : Text
  more : List Text
  reached : ParserState
  current : OpenFailure
  outer : List OpenFailure
  header_ne : header ≠ []
  rowFor : ∀ row ∈ header :: more, Text.RowFor codec.config.terminator row
  rows_eq : Text.ofRows codec.config.terminator s.rows =
    Text.ofRows codec.config.terminator (header :: more)
  run_eq : run codec 1 more ⟨.ofHeader codec 0 .root first header, [], first + 1⟩ = .ok reached
  trails : reached.Trails s current outer

/-- The state after some lines, and other lines for what it has read. -/
structure Rewrites (codec : Codec) (first second : Nat) (lines : List Text) (s : ParserState) :
    Prop where
  sound : s.Sound first
  canonical : (∀ line ∈ lines, line.Tidy) → s.FramesCanonical
  rewrite : (∀ line ∈ lines, line.Tidy) → Nonempty (Rewrite codec second s)

theorem rewrites_invariant {codec : Codec} (hindicator : codec.config.indicator = [])
    (first second : Nat) : Invariant codec first (Rewrites codec first second) where
  start header hne := by
    refine ⟨sound_start codec first header, fun _ => ?_, fun htidy => ⟨?_⟩⟩
    · exact List.forall_mem_cons.2 ⟨List.forall_mem_nil _, List.forall_mem_nil _⟩
    · have hlevel : Level ⟨.ofHeader codec 0 .root second header, [], second + 1⟩
          ⟨.ofHeader codec 0 .root first header, [], first + 1⟩ :=
        ⟨.refl _, .ofHeader codec 0 .root second first header, .nil⟩
      refine ⟨header, [], _, _, _, hne, ?_, ?_, rfl, hlevel.trails⟩
      · exact fun row hrow => (htidy row hrow).rowFor _
      · rw [rows_eq_of_pending? rfl, rowsOf_ofHeader hindicator]
        rfl
  attach := by
    intro lines child parent outer next hclosed h
    obtain ⟨hsound, hcanonical, hrewrite⟩ := h
    refine ⟨hsound.attach, fun htidy => (hcanonical htidy).attach, fun htidy => ?_⟩
    obtain ⟨w⟩ := hrewrite htidy
    obtain ⟨f₁, outer₁, htrails⟩ := w.trails.attach hclosed hsound.stack.1.position
    refine ⟨{ w with current := f₁, outer := outer₁, rows_eq := ?_, trails := htrails }⟩
    rw [← w.rows_eq, rows_eq_of_pending? (pending?_attach parent child),
      rows_eq_of_pending? hclosed, rowsOf_attach hsound.stack.1 hsound.stack.2.1]
  takes := by
    intro lines text s s' htakes h
    obtain ⟨hsound, hcanonical, hrewrite⟩ := h
    refine ⟨hsound.takes htakes, fun htidy => ?_, fun htidy => ?_⟩ <;>
      obtain ⟨hlines, htext⟩ := List.forall_mem_append.1 htidy
    · exact (hcanonical hlines).takes (htext text List.mem_cons_self) htakes
    · obtain ⟨w⟩ := hrewrite hlines
      obtain ⟨more, s₂, hrun, hlevel, hrows, hofRows⟩ := exists_run_of_takes hindicator hsound
        (hcanonical hlines) (htext text List.mem_cons_self) htakes w.trails (1 + w.more.length)
      refine ⟨⟨w.header, w.more ++ more, s₂, _, _, w.header_ne, ?_, ?_, ?_, hlevel.trails⟩⟩
      · rw [← List.cons_append]
        exact List.forall_mem_append.2 ⟨w.rowFor, hrows⟩
      · rw [hofRows, Text.ofRows_append, w.rows_eq, ← Text.ofRows_append, List.cons_append]
      · rw [run_append, w.run_eq, Except.bind, hrun]

end ParserState

/-- Reading a text and writing what has been read gives a text that is read as the same and written
as it is. -/
theorem decodeFrom_encode_of_decodeFrom {codec : Codec} {first : Nat} {t : Text} {g : Failure Nat}
    (hterminator : Text.EndsLine codec.config.terminator) (hindicator : codec.config.indicator = [])
    (hreturn : ∀ line ∈ t.lines, line.getLast? ≠ some '\r')
    (hframe : ∀ line ∈ t.lines, line.head? = some '\t' →
      Text.startsWith (line.dropWhile (· = '\t')) Mark.atToken = true → line.getLast? = some ')')
    (h : codec.decodeFrom first t = .ok g) (second : Nat) :
    ∃ again, codec.decodeFrom second (codec.encode g) = .ok again ∧ g.alike again = true ∧
      codec.encode again = codec.encode g := by
  have htidy (line : Text) (hline : line ∈ t.lines) : line.Tidy :=
    ⟨Text.lineFeed_not_mem_of_mem_lines hline, hreturn line hline, hframe line hline⟩
  obtain ⟨root, next, hclosed, rfl, hsound, -, hrewrite⟩ :=
    (ParserState.rewrites_invariant hindicator first second).of_ofLines h
  obtain ⟨w⟩ := hrewrite htidy
  have hencode : codec.encode root.node =
      Text.ofRows codec.config.terminator (w.header :: w.more) := by
    rw [Codec.encode, Failure.print_eq_ofRows, ← hsound.rows_root hclosed, w.rows_eq]
  obtain ⟨again, hfinish, halike⟩ := w.trails.finish_eq hclosed
  have hdecode : codec.decodeFrom second (codec.encode root.node) = .ok again := by
    rw [hencode, Codec.decodeFrom, Text.lines_ofRows hterminator (List.cons_ne_nil _ _) w.rowFor,
      Codec.ofLines, w.run_eq, Except.bind, hfinish]
    exact w.header_ne
  refine ⟨again, hdecode, halike, ?_⟩
  rw [Codec.encode, Codec.encode, Failure.print_eq_ofRows, Failure.print_eq_ofRows,
    Failure.rows_eq_of_alike halike (Failure.allLinksCurrent_of_decodeFrom h)
      (Failure.allLinksCurrent_of_decodeFrom hdecode)]

/-! Line ends of both kinds and none at the end, elisions, and line numbers that are not written so. -/

def looseText : Text :=
  "A: x\r\ny\n\tat p.Q.go(S.java:+5)\n\tat p.Q.main(S.java:007)\r\n\tSuppressed: C\n".toList ++
    "\t\t... 1 more\n\t\t[CIRCULAR REFERENCE:A: x\ny]\nCaused by: B\n\t\t... 02 more".toList

def loose : Failure Nat :=
  let frames := [⟨"p.Q".toList, "go".toList, some "S.java".toList, .number 5⟩,
    ⟨"p.Q".toList, "main".toList, some "S.java".toList, .number 7⟩]
  let beside := { Failure.ofType 1 ['C'] with
    frames := frames.drop 1, cause := .backRef ⟨0, "A: x\ny".toList⟩ }
  { Failure.ofType 0 ['A'] with
    message := some "x\ny".toList
    frames
    suppressed := [beside]
    cause := .owned { Failure.ofType 2 ['B'] with frames } }

example : Codec.encode {} loose = Text.ofRows ['\n'] ["A: x".toList, "y".toList,
    "\tat p.Q.go(S.java:5)".toList, "\tat p.Q.main(S.java:7)".toList, "\tSuppressed: C".toList,
    "\t\tat p.Q.main(S.java:7)".toList, "\t\t[CIRCULAR REFERENCE:A: x".toList, "y]".toList,
    "Caused by: B".toList, "\tat p.Q.go(S.java:5)".toList, "\tat p.Q.main(S.java:7)".toList] :=
  rfl

theorem decodeFrom_encode_loose : Codec.decodeFrom {} 0 looseText = .ok loose ∧
    ∃ again, Codec.decodeFrom {} 3 (Codec.encode {} loose) = .ok again ∧
      loose.alike again = true ∧ Codec.encode {} again = Codec.encode {} loose := by
  have h : Codec.decodeFrom {} 0 looseText = .ok loose := rfl
  exact ⟨h, decodeFrom_encode_of_decodeFrom (.inl rfl) rfl (by decide) (by decide) h 3⟩

end Stacktrace
