import Stacktrace.Proofs.MarkRows
import Stacktrace.Proofs.OpenStack
import Stacktrace.Proofs.TextLines
import Stacktrace.Proofs.WrittenRows

/-!
# Writing what has been read

While a text is read, the open failures can be written at any time: each gives the row of its header
and the rows of what has been read of it, and a circular reference that has not been closed gives
the row as far as it goes. These rows are always the text that has been read so far, so a graph that
has been read is written as the text that it was read from (`encode_of_decodeFrom`).
-/

namespace Stacktrace

/-- Whether a line is written the way it is read: it stands for no other lines, and a frame on it
is in the one form in which frames are written. -/
structure Text.Canonical (line : Text) : Prop where
  not_elision : Mark.elided? line = none
  frame {depth : Nat} {t : Text} {f : Frame} (eq : line = Mark.indent depth ++ '\t' :: (Mark.atToken ++ t))
    (read : Frame.read t = .ok f) : f.render = t

namespace Text

theorem Canonical.of_dropWhile {line : Text} (helision : Mark.elided? line = none)
    (hframe : ∀ t ∈ after? (line.dropWhile (· = '\t')) Mark.atToken,
      ∀ f ∈ (Frame.read t).toOption, f.render = t) : line.Canonical where
  not_elision := helision
  frame := by
    intro depth t f hline hread
    have hdrop : line.dropWhile (· = '\t') = Mark.atToken ++ t := by
      rw [hline, ← Mark.indent_succ_append, Mark.indent, List.dropWhile_append_of_pos (by simp)]
      rfl
    refine hframe t ?_ f ?_
    · rw [hdrop, after?_append, Option.mem_some_iff]
    · rw [hread]
      rfl

theorem eq_append_of_cut? {t token a b : Text} (h : t.cut? token = some (a, b)) :
    t = a ++ token ++ b := by
  induction t generalizing a with
  | nil => simp [cut?] at h
  | cons c t ih =>
    rw [cut?] at h
    split at h
    · next rest hafter =>
      obtain ⟨rfl, rfl⟩ := Prod.mk.inj (Option.some.inj h)
      exact after?_eq_some_iff.1 hafter
    · obtain ⟨parts, hparts, heq⟩ := Option.map_eq_some_iff.1 h
      obtain ⟨rfl, rfl⟩ := Prod.mk.inj heq
      rw [ih hparts]
      rfl

end Text

namespace OpenFailure

/-- Without an indicator a header is the display text of what it says. -/
theorem displayText_ofHeader {codec : Codec} (hindicator : codec.config.indicator = [])
    (depth : Nat) (relation : Relation) (id : Nat) (header : Text) :
    (ofHeader codec depth relation id header).node.displayText = header := by
  have hname (shown : Text) : (shown.after? codec.config.indicator).getD shown = shown := by
    rw [hindicator, Text.after?_eq_some_iff.2 (List.nil_append shown).symm, Option.getD_some]
  have htype (id : Nat) (shown : Text) (message : Option Text) : Failure.displayType
      { Failure.ofType id shown with
        message
        origin := if codec.resolver.resolves shown then .resolved
          else .surrogate codec.config.indicator } = shown := by
    rw [hindicator, Failure.displayType]
    by_cases hresolves : codec.resolver.resolves shown = true
    · simp only [hresolves, if_true]
      rfl
    · simp only [hresolves]
      rfl
  cases hcut : header.cut? ": ".toList with
  | none =>
    have hsplit : splitHeader header = (header, none) := by rw [splitHeader, hcut]
    rw [node_ofHeader codec depth relation id hsplit (hname header), Failure.displayText]
    exact htype id header none
  | some parts =>
    have hsplit : splitHeader header = (parts.1, some parts.2) := by rw [splitHeader, hcut]
    rw [node_ofHeader codec depth relation id hsplit (hname parts.1), Failure.displayText]
    simp only [htype]
    exact (Text.eq_append_of_cut? hcut).symm

def headerStart (f : OpenFailure) : Text :=
  match f.visit.relation with
  | .root => []
  | .suppressed => Mark.indent (f.depth - 1) ++ '\t' :: Mark.suppressedToken
  | .cause => Mark.indent f.depth ++ Mark.causedByToken

def headerRow (f : OpenFailure) : Text := f.headerStart ++ f.node.displayText

/-- The row of a circular reference that has not been closed, as far as it has been read. -/
def pendingRows (f : OpenFailure) : List Text :=
  f.phase.pending?.toList.map fun pending => (Mark.circular pending.text).row f.depth

/-- The rows of the failures of a stack, outermost first. -/
def rowsOf : List OpenFailure → List Text
  | [] => []
  | f :: outer => rowsOf outer ++ f.headerRow :: f.node.bodyRows (scopeOf outer) f.depth

theorem bodyRows_of_bare {f : Failure Nat} {scope : Scope Nat} (depth : Nat)
    (hsuppressed : f.suppressed = []) (hcause : f.cause = .none) :
    f.bodyRows scope depth = f.frames.map (Failure.frameRow depth) := by
  rw [Failure.bodyRows_eq, hsuppressed, hcause]
  simp [Failure.causeRows]

theorem headerRow_attach (parent child : OpenFailure) :
    (parent.attach child).headerRow = parent.headerRow := by
  rw [attach]
  split <;> rfl

/-- A failure that becomes part of the one above it leaves the rows as they are. -/
theorem rowsOf_attach {child parent : OpenFailure} {outer : List OpenFailure}
    (hchild : child.Sound (parent :: outer)) (hparent : parent.Sound outer) :
    rowsOf (parent.attach child :: outer) = rowsOf (child :: parent :: outer) := by
  obtain ⟨hrelations, hposition⟩ := hchild.position
  have hcause := hparent.cause_eq_none (Sound.ne_complete_of_takesRelations hrelations)
  have hbody : (parent.attach child).node.bodyRows (scopeOf outer) parent.depth =
      parent.node.bodyRows (scopeOf outer) parent.depth ++
        child.headerRow :: child.node.bodyRows (scopeOf (parent :: outer)) child.depth := by
    rw [Failure.bodyRows_eq, Failure.bodyRows_eq _ _ parent.node, hcause, scopeEntry_attach, attach,
      headerRow, headerStart]
    rcases hposition with ⟨hrelation, hdepth⟩ | ⟨hrelation, hdepth⟩
    · simp [hrelation, hdepth, hcause, Failure.causeRows, Failure.suppressedRow, scopeOf]
    · simp [hrelation, hdepth, setCause, Failure.causeRows, Failure.causeRow, scopeOf]
  rw [rowsOf, rowsOf, rowsOf, headerRow_attach, depth_attach, hbody, List.append_assoc,
    List.cons_append]

theorem rowsOf_setBackRef {f : OpenFailure} (hcause : f.node.cause = .none)
    (outer : List OpenFailure) (link : BackRef Nat) :
    rowsOf (f.setCause (.backRef link) :: outer) =
      rowsOf (f :: outer) ++ [Failure.circularRow (scopeOf (f :: outer)) f.depth link] := by
  rw [rowsOf, rowsOf, Failure.bodyRows_eq, Failure.bodyRows_eq _ _ f.node, hcause]
  simp only [Failure.causeRows, List.append_nil, List.append_assoc, List.cons_append]
  rfl

theorem rowsOf_addFrames {f : OpenFailure} (hsuppressed : f.node.suppressed = [])
    (hcause : f.node.cause = .none) (outer : List OpenFailure) (frames : List Frame)
    (phase : Phase) : rowsOf (f.addFrames frames phase :: outer) =
      rowsOf (f :: outer) ++ frames.map (Failure.frameRow f.depth) := by
  rw [rowsOf, rowsOf, bodyRows_of_bare _ hsuppressed hcause,
    bodyRows_of_bare _ (show (f.addFrames frames phase).node.suppressed = [] from hsuppressed) hcause,
    List.append_assoc, List.cons_append, ← List.map_append]
  rfl

theorem rowsOf_goOn {codec : Codec} {f : OpenFailure} {message : Text}
    (hmessage : f.node.message = some message) (hframes : f.node.frames = [])
    (hsuppressed : f.node.suppressed = []) (hcause : f.node.cause = .none)
    (outer : List OpenFailure) (text : Text) :
    rowsOf (f :: outer) = rowsOf outer ++ [f.headerRow] ∧
      rowsOf (f.goOn codec message text :: outer) =
        rowsOf outer ++ [f.headerRow ++ codec.config.terminator ++ text] := by
  have hrow : (f.goOn codec message text).headerRow =
      f.headerRow ++ codec.config.terminator ++ text := by
    have hdisplay : (f.goOn codec message text).node.displayText =
        f.node.displayText ++ codec.config.terminator ++ text := by
      rw [Failure.displayText, Failure.displayText, hmessage]
      simp only [goOn, update_node, List.append_assoc]
      rfl
    rw [headerRow, headerRow, hdisplay, List.append_assoc, List.append_assoc, List.append_assoc]
    rfl
  constructor
  · rw [rowsOf, bodyRows_of_bare _ hsuppressed hcause, hframes, List.map_nil]
  · rw [rowsOf, hrow, bodyRows_of_bare (f := (f.goOn codec message text).node) _ hsuppressed hcause,
      show (f.goOn codec message text).node.frames = [] from hframes, List.map_nil]

theorem rowsOf_ofHeader {codec : Codec} (hindicator : codec.config.indicator = [])
    (depth : Nat) (relation : Relation) (id : Nat) (header : Text) (outer : List OpenFailure) :
    rowsOf (ofHeader codec depth relation id header :: outer) =
      rowsOf outer ++ [(ofHeader codec depth relation id header).headerStart ++ header] := by
  rw [rowsOf, headerRow, displayText_ofHeader hindicator, bodyRows_of_bare _ rfl rfl]
  rfl

end OpenFailure

namespace ParserState
open OpenFailure

def rows (s : ParserState) : List Text :=
  rowsOf (s.current :: s.parents) ++ s.current.pendingRows

theorem rows_eq_of_pending? {s : ParserState} (h : s.current.phase.pending? = none) :
    s.rows = rowsOf (s.current :: s.parents) := by
  rw [rows, pendingRows, h, Option.toList_none, List.map_nil, List.append_nil]

section Rows
variable {first : Nat} {s : ParserState} (h : s.Sound first)
include h

theorem Sound.ofRows_goOn (codec : Codec) {message : Text} (hphase : s.current.phase = .message)
    (hmessage : s.current.node.message = some message) (text : Text) :
    Text.ofRows codec.config.terminator
        (rows { s with current := s.current.goOn codec message text }) =
      Text.ofRows codec.config.terminator s.rows ++ text ++ codec.config.terminator := by
  have hopen := h.stack.1
  obtain ⟨hrow, hmore⟩ := rowsOf_goOn hmessage (hopen.frames_eq_nil hphase)
    (hopen.suppressed_eq_nil (by simp [hphase, Phase.takesFrames]))
    (hopen.cause_eq_none (by simp [hphase])) s.parents text
  rw [rows_eq_of_pending? rfl, rows_eq_of_pending? (by simp [hphase, Phase.pending?]), hmore, hrow]
  simp

theorem Sound.rows_addFrames (hphase : s.current.phase.takesFrames = true) (frames : List Frame)
    {phase : Phase} (hnew : phase.pending? = none) :
    rows { s with current := s.current.addFrames frames phase } =
      s.rows ++ frames.map (Failure.frameRow s.current.depth) := by
  have hcause := h.stack.1.cause_eq_none (OpenFailure.Sound.ne_complete_of_takesFrames hphase)
  rw [rows_eq_of_pending? (show (s.current.addFrames frames phase).phase.pending? = none from hnew),
    rows_eq_of_pending?
      (Phase.pending?_of_takesRelations (Phase.takesRelations_of_takesFrames hphase)),
    rowsOf_addFrames (h.stack.1.suppressed_eq_nil hphase) hcause]

theorem Sound.rows_refer (hphase : s.current.phase ≠ .complete) (pending : PendingReference) :
    (s.refer pending).rows =
      rowsOf (s.current :: s.parents) ++ [(Mark.circular pending.text).row s.current.depth] := by
  rcases refer_cases s pending with ⟨still, hstill, hrefer⟩ | ⟨display, f, htext, hf, hrefer⟩
  · rw [hrefer, ← hstill]
    rfl
  · have hdisplay : f.displayText = display := by simpa using List.find?_some hf
    have hfound := find?_scope_of_target? hf
    have hmem : (f.link.target, f.link.display) ∈ scopeOf (s.current :: s.parents) := by
      have hmem := List.mem_of_find?_eq_some hfound
      rw [List.mem_append, List.mem_singleton] at hmem
      exact List.mem_cons.2 hmem.symm
    -- the printer looks the text up by identity, the parser found it by the text
    have hunique (entry : Nat × Text) (hentry : entry ∈ scopeOf (s.current :: s.parents))
        (hid : entry.1 = f.link.target) : entry.2 = f.link.display :=
      congrArg Prod.snd (List.inj_on_of_nodup_map h.scope_nodup hentry hmem hid)
    have hcurrent : ((scopeOf (s.current :: s.parents)).lookup f.link.target).getD f.link.display =
        f.link.display := by
      rw [Failure.lookup_eq_some hmem hunique, Option.getD_some]
    rw [hrefer, rows_eq_of_pending? rfl, htext, ← hdisplay,
      rowsOf_setBackRef (h.stack.1.cause_eq_none hphase), Failure.circularRow_eq_row hcurrent]
    rfl

theorem Sound.rows_circular (hphase : s.current.phase.takesRelations = true)
    (pending : PendingReference) :
    (s.refer pending).rows = s.rows ++ [(Mark.circular pending.text).row s.current.depth] := by
  rw [h.rows_refer (OpenFailure.Sound.ne_complete_of_takesRelations hphase),
    rows_eq_of_pending? (Phase.pending?_of_takesRelations hphase)]

theorem Sound.ofRows_continued (codec : Codec) {pending : PendingReference}
    (hphase : s.current.phase = .circular pending) (text : Text) :
    Text.ofRows codec.config.terminator (rows (s.refer
        { pending with text := pending.text ++ codec.config.terminator ++ text })) =
      Text.ofRows codec.config.terminator s.rows ++ text ++ codec.config.terminator := by
  rw [h.rows_refer (by simp [hphase]), rows, pendingRows, hphase]
  simp [Phase.pending?, Mark.row]

end Rows

theorem Sound.rows_root {first next : Nat} {root : OpenFailure} (h : Sound first ⟨root, [], next⟩)
    (hclosed : root.phase.pending? = none) : rows ⟨root, [], next⟩ = root.node.rows := by
  obtain ⟨hrelation, hdepth⟩ := h.stack.1.position
  rw [rows_eq_of_pending? hclosed, rowsOf, headerRow, headerStart, hrelation, hdepth]
  rfl

section Descend
variable {codec : Codec} (hindicator : codec.config.indicator = []) {s : ParserState}
  (hphase : s.current.phase.takesRelations = true) (header : Text)
include hindicator hphase

theorem rows_suppressed : (s.descend codec (s.current.depth + 1) .suppressed header).rows =
    s.rows ++ [(Mark.suppressed header).row s.current.depth] := by
  have hstart : (ofHeader codec (s.current.depth + 1) .suppressed s.next header).headerStart =
      Mark.indent s.current.depth ++ '\t' :: Mark.suppressedToken := rfl
  rw [rows_eq_of_pending? rfl, rows_eq_of_pending? (Phase.pending?_of_takesRelations hphase),
    descend, rowsOf_ofHeader hindicator, hstart, Mark.row_suppressed]

theorem rows_causedBy : (s.descend codec s.current.depth .cause header).rows =
    s.rows ++ [(Mark.causedBy header).row s.current.depth] := by
  have hstart : (ofHeader codec s.current.depth .cause s.next header).headerStart =
      Mark.indent s.current.depth ++ Mark.causedByToken := rfl
  rw [rows_eq_of_pending? rfl, rows_eq_of_pending? (Phase.pending?_of_takesRelations hphase),
    descend, rowsOf_ofHeader hindicator, hstart, Mark.row_causedBy]

end Descend

/-- A line that is taken is one row more, or it goes on with the last row. -/
theorem Sound.ofRows_rows_of_takes {codec : Codec} {line first : Nat} {text : Text}
    {s s' : ParserState} (hindicator : codec.config.indicator = []) (h : s.Sound first)
    (hline : text.Canonical) (htakes : Takes codec line text s s') :
    Text.ofRows codec.config.terminator s'.rows =
      Text.ofRows codec.config.terminator s.rows ++ text ++ codec.config.terminator := by
  cases htakes with
  | message hphase hmessage => exact h.ofRows_goOn codec hphase hmessage text
  | frame hphase hmark hread =>
    obtain ⟨hrow, -⟩ := Mark.row_of_ofLine? hmark hline.not_elision
    rw [h.rows_addFrames hphase _ rfl, List.map_singleton, Failure.frameRow_eq_row,
      hline.frame hrow hread, ← hrow]
    simp
  | elision hphase hmark => exact absurd rfl ((Mark.row_of_ofLine? hmark hline.not_elision).2 _)
  | suppressed hphase hmark =>
    rw [rows_suppressed hindicator hphase, ← Mark.eq_row_of_ofLine? hmark (by simp)]
    simp
  | causedBy hphase hmark =>
    rw [rows_causedBy hindicator hphase, ← Mark.eq_row_of_ofLine? hmark (by simp)]
    simp
  | circular hphase hmark =>
    rw [h.rows_circular hphase, ← Mark.eq_row_of_ofLine? hmark (by simp)]
    simp
  | continued hphase => exact h.ofRows_continued codec hphase text

/-- The state after some lines, and the rows that it gives. -/
def Reprints (codec : Codec) (first : Nat) (lines : List Text) (s : ParserState) : Prop :=
  s.Sound first ∧ ((∀ line ∈ lines, line.Canonical) →
    Text.ofRows codec.config.terminator s.rows = Text.ofRows codec.config.terminator lines)

theorem reprints_invariant {codec : Codec} (hindicator : codec.config.indicator = [])
    (first : Nat) : Invariant codec first (Reprints codec first) where
  start header _ := by
    refine ⟨sound_start codec first header, ?_⟩
    intro _
    rw [rows_eq_of_pending? rfl, rowsOf_ofHeader hindicator]
    rfl
  attach := by
    intro lines child parent outer next hclosed h
    obtain ⟨hsound, hrows⟩ := h
    refine ⟨hsound.attach, ?_⟩
    intro hlines
    rw [← hrows hlines, rows_eq_of_pending? (pending?_attach parent child),
      rows_eq_of_pending? hclosed, rowsOf_attach hsound.stack.1 hsound.stack.2.1]
  takes := by
    intro lines text s s' htakes h
    obtain ⟨hsound, hrows⟩ := h
    refine ⟨hsound.takes htakes, ?_⟩
    intro hlines
    obtain ⟨hlines, htext⟩ := List.forall_mem_append.1 hlines
    rw [hsound.ofRows_rows_of_takes hindicator (htext text (List.mem_singleton.2 rfl)) htakes,
      hrows hlines]
    simp

end ParserState

/-- A graph that has been read is written as the text that it was read from. -/
theorem encode_of_decodeFrom {codec : Codec} {first : Nat} {lines : List Text} {g : Failure Nat}
    (hterminator : Text.EndsLine codec.config.terminator) (hindicator : codec.config.indicator = [])
    (hrows : ∀ line ∈ lines, Text.RowFor codec.config.terminator line)
    (hlines : ∀ line ∈ lines, line.Canonical)
    (h : codec.decodeFrom first (Text.ofRows codec.config.terminator lines) = .ok g) :
    codec.encode g = Text.ofRows codec.config.terminator lines := by
  have hne : lines ≠ [] := by
    intro hnil
    have hempty : codec.decodeFrom first [] = .error .emptyInput := rfl
    rw [hnil, Text.ofRows_nil, hempty] at h
    cases h
  rw [Codec.decodeFrom, Text.lines_ofRows hterminator hne hrows] at h
  obtain ⟨root, next, hclosed, rfl, hsound, hprinted⟩ :=
    (ParserState.reprints_invariant hindicator first).of_ofLines h
  obtain ⟨hrelation, hdepth⟩ := hsound.stack.1.position
  have hroot : ParserState.rows ⟨root, [], next⟩ = root.node.rows := by
    rw [ParserState.rows_eq_of_pending? hclosed, OpenFailure.rowsOf, OpenFailure.headerRow,
      OpenFailure.headerStart, hrelation, hdepth]
    rfl
  rw [Codec.encode, Failure.print_eq_ofRows, ← hroot, hprinted hlines]

/-! A message and a circular reference of three lines, one of them blank. -/

def returning : Codec := ⟨{ terminator := ['\r', '\n'] }, .any⟩

def blankLines : List Text :=
  ["A: x".toList, [], "y".toList, "\tat p.Q.r(S.java:3)".toList, "\tSuppressed: C".toList,
    "\t\t[CIRCULAR REFERENCE:A: x".toList, [], "y]".toList, "Caused by: B".toList]

def blankInside : Failure Nat :=
  let message := "x\r\n\r\ny".toList
  { Failure.ofType 0 ['A'] with
    message := some message
    frames := [⟨"p.Q".toList, ['r'], some "S.java".toList, .number 3⟩]
    suppressed := [{ Failure.ofType 1 ['C'] with cause := .backRef ⟨0, "A: ".toList ++ message⟩ }]
    cause := .owned (Failure.ofType 2 ['B']) }

theorem encode_blankInside :
    returning.decodeFrom 0 (Text.ofRows ['\r', '\n'] blankLines) = .ok blankInside ∧
      returning.encode blankInside = Text.ofRows ['\r', '\n'] blankLines := by
  have h : returning.decodeFrom 0 (Text.ofRows ['\r', '\n'] blankLines) = .ok blankInside := rfl
  have hlines : ∀ line ∈ blankLines, line.Canonical := fun line hline =>
    .of_dropWhile ((by decide : ∀ line ∈ blankLines, Mark.elided? line = none) line hline)
      ((by decide : ∀ line ∈ blankLines, ∀ t ∈ Text.after? (line.dropWhile (· = '\t')) Mark.atToken,
        ∀ f ∈ (Frame.read t).toOption, f.render = t) line hline)
  exact ⟨h, encode_of_decodeFrom (.inr rfl) rfl (by decide) hlines h⟩

end Stacktrace
