import Stacktrace.Proofs.AbridgedRows
import Stacktrace.Proofs.AlikeRows
import Stacktrace.Proofs.DecodedLinks
import Stacktrace.Proofs.WrittenRows

/-!
# Reading what has been written

A graph of legible failures whose links say where they lead is read again as it was written, up to
the identities (`decodeFrom_encode`), and so it is from a text with elisions (`decodeFrom_abridged`).
A failure is read when its rows have been taken and the open failures below it are read to their
ends; its suppressed failures and its cause are read one after the other, each with the failures on
the way down to it still open, so that a link finds the display text that it shows among theirs and
an elision finds the frames that it stands for.
-/

namespace Stacktrace
variable {ι : Type}

namespace Failure

/-- Whether the link of a failure, if it has one, is written with the display text that it keeps,
which is one in scope, and no display text in scope ends within it. -/
structure LinkShown [DecidableEq ι] (terminator : Text) (scope : Scope ι) (f : Failure ι) : Prop where
  current : f.LinkCurrent scope
  found : ∀ link ∈ f.cause.backRef?, link.display ∈ (f.scopeEntry :: scope).map Prod.snd
  whole : ∀ link ∈ f.cause.backRef?, ∀ display ∈ (f.scopeEntry :: scope).map Prod.snd,
    ¬ display ++ Mark.circularClose ++ terminator <+: link.display

end Failure

/-- Whether an open failure is what has been read of a failure so far. -/
structure OpenFailure.Holds (f : OpenFailure) (depth : Nat) (relation : Relation) (g : Failure ι) :
    Prop where
  depth_eq : f.depth = depth
  relation_eq : f.visit.relation = relation
  alike : g.alike f.node = true

namespace OpenFailure.Holds
variable {f child : OpenFailure} {depth below : Nat} {relation : Relation} {g x : Failure ι}

theorem shown_cons {suppressed : List (Failure ι)} {cause : Cause ι (Failure ι)}
    (h : f.Holds depth relation { g with suppressed, cause }) {outer : List OpenFailure}
    {above : List (Failure ι)} (habove : outer.map (·.node.shown) = above.map Failure.shown) :
    (f :: outer).map (·.node.shown) = (g :: above).map Failure.shown := by
  obtain ⟨-, -, hframes, -, -, -⟩ := Failure.alike_iff.1 h.alike
  rw [List.map_cons, List.map_cons, habove, Failure.shown, Failure.shown, ← hframes,
    Failure.displayText_eq_of_alike h.alike]
  rfl

theorem attach_suppressed {before : List (Failure ι)}
    (h : f.Holds depth relation { g with suppressed := before, cause := .none })
    (hchild : child.Holds below .suppressed x) :
    (f.attach child).Holds depth relation { g with suppressed := before ++ [x], cause := .none } ∧
      (f.attach child).phase = .relations := by
  obtain ⟨htype, hmessage, hframes, horigin, hsuppressed, hcause⟩ := Failure.alike_iff.1 h.alike
  have hlast : Failure.alikeIn [x] [child.node] = true := by
    rw [Failure.alikeIn, hchild.alike]
    rfl
  rw [attach_eq_of_suppressed hchild.relation_eq]
  refine ⟨⟨h.depth_eq, h.relation_eq, Failure.alike_iff.2 ?_⟩, rfl⟩
  exact ⟨htype, hmessage, hframes, horigin, Failure.alikeIn_append hsuppressed hlast, hcause⟩

theorem setCause {cause : Cause Nat (Failure Nat)} (h : f.Holds depth relation { g with cause := .none })
    (hcause : Failure.alikeCause g.cause cause = true) : (f.setCause cause).Holds depth relation g where
  depth_eq := h.depth_eq
  relation_eq := h.relation_eq
  alike := by
    obtain ⟨htype, hmessage, hframes, horigin, hsuppressed, -⟩ := Failure.alike_iff.1 h.alike
    exact Failure.alike_iff.2 ⟨htype, hmessage, hframes, horigin, hsuppressed, hcause⟩

theorem attach_cause (h : f.Holds depth relation { g with cause := .none })
    (hchild : child.Holds below .cause x) (hcause : g.cause = .owned x) :
    (f.attach child).Holds depth relation g ∧ (f.attach child).phase = .complete := by
  rw [attach_eq_of_cause hchild.relation_eq]
  refine ⟨h.setCause ?_, rfl⟩
  rw [hcause]
  exact hchild.alike

end OpenFailure.Holds

namespace ParserState
open OpenFailure

/-- Whether the next row at a depth is one of `f`, which can still take failures that hang off it. -/
structure Awaits (s : ParserState) (depth : Nat) (f : OpenFailure) (outer : List OpenFailure) :
    Prop where
  unwinds : Unwinds (depth + 1) f outer s.current s.parents
  depth_eq : f.depth = depth
  takesRelations : f.phase.takesRelations = true

theorem isSome_target? {s : ParserState} {display : Text} :
    (s.target? display).isSome = true ↔
      display ∈ (s.current :: s.parents).map (·.node.displayText) := by
  rw [target?, List.find?_isSome]
  constructor
  · intro h
    obtain ⟨f, hf, hdisplay⟩ := h
    obtain ⟨opened, hopened, rfl⟩ := List.mem_map.1 hf
    refine List.mem_map.2 ⟨opened, ?_, of_decide_eq_true hdisplay⟩
    rw [List.mem_append, List.mem_singleton] at hopened
    exact List.mem_cons.2 hopened.symm
  · intro h
    obtain ⟨opened, hopened, hdisplay⟩ := List.mem_map.1 h
    refine ⟨opened.node, List.mem_map_of_mem ?_, decide_eq_true hdisplay⟩
    rw [List.mem_append, List.mem_singleton]
    exact (List.mem_cons.1 hopened).symm

theorem Awaits.step_row {s : ParserState} {depth : Nat} {f : OpenFailure} {outer : List OpenFailure}
    (h : s.Awaits depth f outer) {codec : Codec} {mark : Mark} (hmark : ∀ count, mark ≠ .elision count)
    {line : Nat} {result : Except DecodeError ParserState}
    (htake : takeMark? codec line ⟨f, outer, s.next⟩ mark = some result) :
    s.step codec line (mark.row depth) = result :=
  h.unwinds.feed_row hmark (Phase.pending?_of_takesRelations h.takesRelations) h.depth_eq htake

end ParserState

namespace Failure
open ParserState

theorem map_displayText_of_shown {outer : List OpenFailure} {above : List (Failure ι)}
    (h : outer.map (·.node.shown) = above.map shown) :
    outer.map (·.node.displayText) = (above.map scopeEntry).map Prod.snd := by
  have hfst := congrArg (List.map Prod.fst) h
  rw [List.map_map, List.map_map] at hfst
  rw [List.map_map]
  exact hfst

variable [DecidableEq ι] {codec : Codec}

/-- Whether `done` is all of a failure, once the open failures below it are read to their ends. -/
structure ReadInto (f : Failure ι) (depth : Nat) (relation : Relation) (s : ParserState)
    (done : OpenFailure) (outer : List OpenFailure) : Prop where
  unwinds : Unwinds depth done outer s.current s.parents
  closed : done.phase.pending? = none
  holds : done.Holds depth relation f

/-- Whether the rows of a failure are read as the failure when the failures above it are open with
their display texts and their frames. -/
structure ReadsBack (codec : Codec) (elisions : Elisions ι) (depth : Nat) (above : List (Failure ι))
    (f : Failure ι) : Prop where
  legible : f.Legible codec depth
  run (relation : Relation) (id line next : Nat) (outer : List OpenFailure)
    (habove : outer.map (·.node.shown) = above.map shown) :
    ∃ (s : ParserState) (done : OpenFailure),
      ParserState.run codec line
        ((f.abridgedRows elisions (above.map scopeEntry) depth).flatMap Text.pieces)
        ⟨f.opened depth relation id, outer, next⟩ = .ok s ∧ f.ReadInto depth relation s done outer

section Rows
variable {elisions : Elisions ι} {f : Failure ι} {above : List (Failure ι)} {depth : Nat}
  {relation : Relation} {s : ParserState} {parent : OpenFailure} {outer : List OpenFailure}
  (hterminator : codec.config.terminator.EndsLine) (hawaits : s.Awaits depth parent outer)
include hterminator hawaits

theorem ReadsBack.run_child {below : Nat} (hreads : f.ReadsBack codec elisions below above)
    (habove : (parent :: outer).map (·.node.shown) = above.map shown)
    {start : Text} (hstart : start.Plain) {mark : Text → Mark}
    (hmark : ∀ t count, mark t ≠ .elision count) (hrow : ∀ t, (mark t).row depth = start ++ t)
    (htake : ∀ line header, takeMark? codec line ⟨parent, outer, s.next⟩ (mark header) =
      some (.ok (descend codec ⟨parent, outer, s.next⟩ below relation header))) (line : Nat) :
    ∃ (s' : ParserState) (child : OpenFailure),
      ParserState.run codec line
        (((mark f.displayText).row depth ::
          f.abridgedRows elisions (above.map scopeEntry) below).flatMap Text.pieces) s = .ok s' ∧
      f.ReadInto below relation s' child (parent :: outer) := by
  obtain ⟨header, more, hplain, -, hdisplay, hheader⟩ := hreads.legible.exists_header
  have hpieces : ((mark f.displayText).row depth).pieces = (mark header).row depth :: more := by
    rw [hrow, hrow, hdisplay, Text.pieces_append_joined hterminator hstart hplain]
  have hstep := hawaits.step_row (hmark header) (htake line header)
  obtain ⟨s', child, hrun, hchild⟩ := hreads.run relation s.next (line + 1 + more.length)
    (s.next + 1) (parent :: outer) habove
  refine ⟨s', child, ?_, hchild⟩
  rw [List.flatMap_cons, hpieces, List.cons_append, run_cons_of_step hstep, run_append, descend,
    hheader, Except.bind]
  exact hrun

variable (habove : outer.map (·.node.shown) = above.map shown)
include habove

theorem run_suppressed {before todo : List (Failure ι)}
    (hreads : ∀ x ∈ todo, x.ReadsBack codec elisions (depth + 1) (f :: above))
    (hholds : parent.Holds depth relation { f with suppressed := before, cause := .none })
    (line : Nat) : ∃ (s' : ParserState) (done : OpenFailure),
      run codec line ((todo.flatMap fun x => suppressedRow depth x ::
        x.abridgedRows elisions ((f :: above).map scopeEntry) (depth + 1)).flatMap Text.pieces) s =
          .ok s' ∧
      s'.Awaits depth done outer ∧
        done.Holds depth relation { f with suppressed := before ++ todo, cause := .none } := by
  induction todo generalizing before s parent line with
  | nil =>
    rw [List.append_nil]
    exact ⟨s, parent, rfl, hawaits, hholds⟩
  | cons x todo ih =>
    obtain ⟨hx, htodo⟩ := List.forall_mem_cons.1 hreads
    have htake (line : Nat) (header : Text) :
        takeMark? codec line ⟨parent, outer, s.next⟩ (.suppressed header) =
          some (.ok (descend codec ⟨parent, outer, s.next⟩ (depth + 1) .suppressed header)) := by
      rw [takeMark?, if_pos hawaits.takesRelations, hawaits.depth_eq]
    obtain ⟨between, child, hrun, hchild⟩ := hx.run_child hterminator hawaits
      (hholds.shown_cons habove) (Mark.plain_indent_append depth (by decide)) (by simp)
      (Mark.row_suppressed depth) htake line
    obtain ⟨hattach, hphase⟩ := hholds.attach_suppressed hchild.holds
    -- the child stands one tab deeper, so the next row of its parent unwinds it too
    have hnext : between.Awaits depth (parent.attach child) outer := by
      refine ⟨hchild.unwinds.attach ?_ hchild.closed, hattach.depth_eq, ?_⟩
      · exact Nat.le_of_eq hchild.holds.depth_eq.symm
      · rw [hphase]
        rfl
    obtain ⟨s', done, hrest, hdone, hheld⟩ := ih hnext htodo hattach
      (line + ((suppressedRow depth x ::
        x.abridgedRows elisions ((f :: above).map scopeEntry) (depth + 1)).flatMap Text.pieces).length)
    refine ⟨s', done, ?_, hdone, ?_⟩
    · rw [List.flatMap_cons, List.flatMap_append, run_append, suppressedRow_eq_row, hrun, Except.bind]
      exact hrest
    · rw [List.append_cons]
      exact hheld

variable (hholds : parent.Holds depth relation { f with cause := .none })
include hholds

theorem run_circular {link : BackRef ι} (hlink : link ∈ f.cause.backRef?)
    (hshown : f.LinkShown codec.config.terminator (above.map scopeEntry))
    (hjoined : Text.Joined codec.config.terminator link.display) (line : Nat) :
    ∃ target : Failure Nat, target.displayText = link.display ∧
      run codec line (circularRow ((f :: above).map scopeEntry) depth link).pieces s =
        .ok ⟨parent.setCause (.backRef target.link), outer, s.next⟩ := by
  have htexts := map_displayText_of_shown (hholds.shown_cons habove)
  obtain ⟨first, more, hplain, hfirst⟩ :=
    hjoined.append_plain (by decide : Text.Plain Mark.circularClose)
  have hstart := Mark.plain_indent_append depth
    (by decide : Text.Plain ('\t' :: Mark.circularToken))
  have hpieces : (circularRow ((f :: above).map scopeEntry) depth link).pieces =
      (Mark.circular first).row depth :: more := by
    rw [List.map_cons, circularRow_eq_row (hshown.current link hlink), Mark.row_circular,
      Mark.row_circular, hfirst, Text.pieces_append_joined hterminator hstart hplain]
  have hstep : s.step codec line ((Mark.circular first).row depth) =
      .ok (refer ⟨parent, outer, s.next⟩ ⟨line, first, first, none⟩) :=
    hawaits.step_row (by simp) (by rw [takeMark?, if_pos hawaits.takesRelations])
  have hopen : (target? ⟨parent, outer, s.next⟩ link.display).isSome = true := by
    rw [isSome_target?, htexts]
    exact hshown.found link hlink
  obtain ⟨target, htarget⟩ := Option.isSome_iff_exists.1 hopen
  have hearlier (display : Text) (h : (target? ⟨parent, outer, s.next⟩ display).isSome = true) :
      ¬ display ++ Mark.circularClose ++ codec.config.terminator <+: link.display := by
    rw [isSome_target?, htexts] at h
    exact hshown.whole link hlink display h
  refine ⟨target, by simpa using List.find?_some htarget, ?_⟩
  rw [hpieces, run_cons_of_step hstep]
  exact run_refer hterminator htarget hearlier hfirst.symm (line + 1)

theorem run_cause (hshown : f.LinkShown codec.config.terminator (above.map scopeEntry))
    (hjoined : ∀ display ∈ ((f :: above).map scopeEntry).map Prod.snd,
      Text.Joined codec.config.terminator display)
    (hreads : ∀ c, f.cause = .owned c → c.ReadsBack codec elisions depth (f :: above))
    (line : Nat) : ∃ (s' : ParserState) (done : OpenFailure),
      run codec line
        ((abridgedCause elisions ((f :: above).map scopeEntry) depth f.cause).flatMap Text.pieces) s =
        .ok s' ∧ f.ReadInto depth relation s' done outer := by
  cases hcause : f.cause with
  | none =>
    have hsame : ({ f with cause := .none } : Failure ι) = f := by
      cases f
      cases hcause
      rfl
    rw [hsame] at hholds
    exact ⟨s, parent, rfl, hawaits.unwinds.mono (Nat.le_succ depth),
      Phase.pending?_of_takesRelations hawaits.takesRelations, hholds⟩
  | owned c =>
    have htake (line : Nat) (header : Text) :
        takeMark? codec line ⟨parent, outer, s.next⟩ (.causedBy header) =
          some (.ok (descend codec ⟨parent, outer, s.next⟩ depth .cause header)) := by
      rw [takeMark?, if_pos hawaits.takesRelations, hawaits.depth_eq]
    obtain ⟨s', child, hrun, hchild⟩ := (hreads c hcause).run_child hterminator hawaits
      (hholds.shown_cons habove) (Mark.plain_indent_append depth (by decide)) (by simp)
      (Mark.row_causedBy depth) htake line
    obtain ⟨hattach, hphase⟩ := hholds.attach_cause hchild.holds hcause
    refine ⟨s', parent.attach child, ?_, hchild.unwinds.attach ?_ hchild.closed, ?_, hattach⟩
    · rw [abridgedCause, causeRow_eq_row]
      exact hrun
    · exact Nat.le_of_eq hchild.holds.depth_eq.symm
    · rw [hphase]
      rfl
  | backRef link =>
    have hlink : link ∈ f.cause.backRef? := by
      rw [hcause]
      rfl
    obtain ⟨target, hdisplay, hrun⟩ := run_circular hterminator hawaits habove hholds hlink hshown
      (hjoined _ (hshown.found link hlink)) line
    refine ⟨⟨parent.setCause (.backRef target.link), outer, s.next⟩,
      parent.setCause (.backRef target.link), ?_, .done, rfl, hholds.setCause ?_⟩
    · rw [abridgedCause, List.flatMap_singleton]
      exact hrun
    · rw [hcause]
      exact decide_eq_true hdisplay.symm

end Rows

abbrev Readable (codec : Codec) (elisions : Elisions ι) (depth : Nat) (above : List (Failure ι))
    (f : Failure ι) : Prop :=
  All (fun f => f) (fun depth above f => f.Legible codec depth ∧
    f.LinkShown codec.config.terminator (above.map scopeEntry) ∧ f.Shares elisions above) depth above f

section Readable
variable {elisions : Elisions ι} {depth : Nat} {above : List (Failure ι)} {f : Failure ι}
  (h : f.Readable codec elisions depth above)
  (hjoined : ∀ display ∈ (above.map scopeEntry).map Prod.snd,
    Text.Joined codec.config.terminator display)
include h hjoined

theorem readsBack (hterminator : codec.config.terminator.EndsLine) :
    f.ReadsBack codec elisions depth above := by
  induction f generalizing depth above with
  | node f ihSuppressed ihCause =>
    obtain ⟨⟨hlegible, hshown, hshares⟩, hsuppressed, hcause⟩ := all_iff.1 h
    have hentries : ∀ display ∈ ((f :: above).map scopeEntry).map Prod.snd,
        Text.Joined codec.config.terminator display :=
      List.forall_mem_cons.2 ⟨hlegible.joined_displayText, hjoined⟩
    refine ⟨hlegible, ?_⟩
    intro relation id line next outer habove
    have hdepth : (f.opened depth relation id).depth = depth := rfl
    obtain ⟨phase, hphase, hrunFrames⟩ := run_framePart hdepth rfl
      (fun frame hframe => (hlegible.frames frame hframe).2) hshares habove line next
    have hopened : ((f.opened depth relation id).addFrames f.frames phase).Holds depth relation
        { f with suppressed := [], cause := .none } :=
      ⟨rfl, rfl, alike_iff.2 ⟨rfl, rfl, rfl, rfl, rfl, rfl⟩⟩
    have hawaited : Awaits ⟨(f.opened depth relation id).addFrames f.frames phase, outer, next⟩ depth
        ((f.opened depth relation id).addFrames f.frames phase) outer :=
      ⟨.done, rfl, hphase⟩
    obtain ⟨between, parent, hrunSuppressed, hawaits, hholds⟩ := run_suppressed hterminator hawaited
      habove (fun x hx => ihSuppressed x hx (hsuppressed x hx) hentries) hopened
      (line + (f.framePart elisions depth).length)
    obtain ⟨s, done, hrunCause, hdone⟩ := run_cause hterminator hawaits habove hholds hshown hentries
      (fun c hc => ihCause c hc (hcause c hc) hentries) _
    refine ⟨s, done, ?_, hdone⟩
    rw [List.map_cons] at hrunSuppressed
    rw [abridgedRows_eq, List.flatMap_append, List.flatMap_append, hlegible.pieces_framePart,
      run_append, run_append, hrunFrames, Except.bind, hrunSuppressed, Except.bind]
    exact hrunCause

theorem joined_of_mem_abridgedRows {row : Text}
    (hrow : row ∈ f.abridgedRows elisions (above.map scopeEntry) depth) :
    Text.Joined codec.config.terminator row := by
  induction f generalizing depth above with
  | node f ihSuppressed ihCause =>
    obtain ⟨⟨hlegible, hshown, -⟩, hsuppressed, hcause⟩ := all_iff.1 h
    have hentries : ∀ display ∈ ((f :: above).map scopeEntry).map Prod.snd,
        Text.Joined codec.config.terminator display :=
      List.forall_mem_cons.2 ⟨hlegible.joined_displayText, hjoined⟩
    rw [abridgedRows_eq, List.mem_append, List.mem_append] at hrow
    rcases hrow with (hrow | hrow) | hrow
    · exact .of_plain (hlegible.plain_of_mem_framePart hrow)
    · obtain ⟨x, hx, hrow⟩ := List.mem_flatMap.1 hrow
      rcases List.mem_cons.1 hrow with rfl | hrow
      · rw [suppressedRow_eq_row, Mark.row_suppressed]
        exact .plain_append (Mark.plain_indent_append depth (by decide))
          (all_iff.1 (hsuppressed x hx)).1.1.joined_displayText
      · exact ihSuppressed x hx (hsuppressed x hx) hentries hrow
    · cases hc : f.cause with
      | none => simp [hc, abridgedCause] at hrow
      | owned c =>
        rw [hc, abridgedCause, List.mem_cons] at hrow
        rcases hrow with rfl | hrow
        · rw [causeRow_eq_row, Mark.row_causedBy]
          exact .plain_append (Mark.plain_indent_append depth (by decide))
            (all_iff.1 (hcause c hc)).1.1.joined_displayText
        · exact ihCause c hc (hcause c hc) hentries hrow
      | backRef link =>
        have hmem : link ∈ f.cause.backRef? := by
          rw [hc]
          rfl
        rw [hc, abridgedCause, List.mem_singleton, circularRow_eq_row (hshown.current link hmem),
          Mark.row_circular] at hrow
        rw [hrow]
        exact .plain_append (Mark.plain_indent_append depth (by decide))
          ((hentries _ (hshown.found link hmem)).append_plain (by decide))

end Readable
end Failure

/-- Whether the link of a failure, if it has one, is a link to the failure or to one above it as
they are, and none of their display texts ends within the text of the link. -/
def Lineage.LinksPlainly (terminator : Text) (p : Lineage ι) : Prop :=
  ∀ link ∈ p.node.cause.backRef?, (∃ target ∈ p.path, target.link = link) ∧
    ∀ a ∈ p.path, ¬ a.displayText ++ Mark.circularClose ++ terminator <+: link.display

instance [DecidableEq ι] (terminator : Text) (p : Lineage ι) :
    Decidable (p.LinksPlainly terminator) :=
  inferInstanceAs (Decidable (∀ link ∈ p.node.cause.backRef?,
    (∃ target ∈ p.path, target.link = link) ∧
      ∀ a ∈ p.path, ¬ a.displayText ++ Mark.circularClose ++ terminator <+: link.display))

theorem Failure.readable_of_lineages [DecidableEq ι] {codec : Codec} {elisions : Elisions ι}
    {g : Failure ι} (hids : g.ids.Nodup) (hlegible : ∀ p ∈ g.lineages, p.node.Legible codec p.depth)
    (hlinks : ∀ p ∈ g.lineages, p.LinksPlainly codec.config.terminator)
    (hshares : ∀ p ∈ g.lineages, p.node.Shares elisions p.above) :
    g.Readable codec elisions 0 [] := by
  refine all_iff_forall_mem_lineages.2 fun p hp => ?_
  rw [List.map_id']
  refine ⟨hlegible p hp, ⟨?_, ?_, ?_⟩, hshares p hp⟩
  · exact linkCurrent_of_mem_lineages hids hp fun link hlink => (hlinks p hp link hlink).1
  · intro link hlink
    obtain ⟨⟨target, htarget, rfl⟩, -⟩ := hlinks p hp link hlink
    exact List.mem_map_of_mem (f := Prod.snd) (List.mem_map_of_mem (f := scopeEntry) htarget)
  · intro link hlink display hdisplay
    have htexts : (p.node.scopeEntry :: p.above.map scopeEntry).map Prod.snd =
        p.path.map displayText := by simp [Lineage.path, scopeEntry]
    rw [htexts] at hdisplay
    obtain ⟨a, ha, rfl⟩ := List.mem_map.1 hdisplay
    exact (hlinks p hp link hlink).2 a ha

theorem Failure.allLinksCurrent_of_decodeFrom {codec : Codec} {first : Nat} {t : Text}
    {g : Failure Nat} (h : codec.decodeFrom first t = .ok g) : g.AllLinksCurrent 0 [] := by
  have hids := (increasing_of_decodeFrom h).imp Nat.ne_of_lt
  refine all_iff_forall_mem_lineages.2 ?_
  intro p hp
  refine linkCurrent_of_mem_lineages hids hp ?_
  intro link hlink
  obtain ⟨target, htarget, hnearest⟩ := exists_nearest_of_decodeFrom h hp hlink
  refine ⟨target, htarget, ?_⟩
  rw [Failure.link, hnearest.id_eq, hnearest.displayText_eq]

/-- A graph is read from a text with elisions, up to the identities. -/
theorem decodeFrom_abridged [DecidableEq ι] {codec : Codec} {elisions : Failure.Elisions ι}
    {g : Failure ι} (hterminator : codec.config.terminator.EndsLine) (hroot : g.displayText ≠ [])
    (hreadable : g.Readable codec elisions 0 []) (first : Nat) :
    ∃ again, codec.decodeFrom first (g.abridged elisions codec.config) = .ok again ∧
      g.alike again = true := by
  obtain ⟨header, more, hplain, hnil, hdisplay, hheader⟩ :=
    (Failure.all_iff.1 hreadable).1.1.exists_header
  have hlines : (g.abridged elisions codec.config).lines =
      header :: (more ++ (g.abridgedRows elisions [] 0).flatMap Text.pieces) := by
    have hrows : ∀ row ∈ g.displayText :: g.abridgedRows elisions [] 0,
        Text.Joined codec.config.terminator row := by
      refine List.forall_mem_cons.2 ⟨⟨header, more, hplain, hdisplay⟩, ?_⟩
      intro row hrow
      exact Failure.joined_of_mem_abridgedRows hreadable (by simp) hrow
    rw [Failure.abridged, Text.lines_ofRows_of_joined hterminator (List.cons_ne_nil _ _) hrows,
      List.flatMap_cons, hdisplay, Text.pieces_joined hterminator hplain, List.cons_append]
  obtain ⟨s, root, hrun, hroot'⟩ := (Failure.readsBack hreadable (by simp) hterminator).run .root
    first (1 + more.length) (first + 1) [] rfl
  refine ⟨root.node, ?_, hroot'.holds.alike⟩
  rw [Codec.decodeFrom, hlines]
  cases header with
  | nil => exact absurd (hnil rfl) hroot
  | cons c header =>
    rw [List.map_nil] at hrun
    rw [Codec.ofLines, ParserState.run_append, hheader, Except.bind, hrun, Except.bind,
      hroot'.unwinds.finish_eq hroot'.closed]
    exact List.cons_ne_nil c header

/-- A graph is read as it was written, up to the identities, and is written as before. -/
theorem decodeFrom_encode [DecidableEq ι] {codec : Codec} {g : Failure ι}
    (hterminator : codec.config.terminator.EndsLine) (hroot : g.displayText ≠ [])
    (hids : g.ids.Nodup) (hlegible : ∀ p ∈ g.lineages, p.node.Legible codec p.depth)
    (hlinks : ∀ p ∈ g.lineages, p.LinksPlainly codec.config.terminator) (first : Nat) :
    ∃ again, codec.decodeFrom first (codec.encode g) = .ok again ∧ g.alike again = true ∧
      codec.encode again = codec.encode g := by
  have hreadable : g.Readable codec (fun _ => none) 0 [] :=
    Failure.readable_of_lineages hids hlegible hlinks fun p _ e he => by cases he
  obtain ⟨again, hdecode, halike⟩ := decodeFrom_abridged hterminator hroot hreadable first
  rw [Failure.abridged_none] at hdecode
  have hcurrent : g.AllLinksCurrent 0 [] :=
    Failure.all_iff_forall_mem_lineages.2 fun p hp =>
      Failure.linkCurrent_of_mem_lineages hids hp fun link hlink => (hlinks p hp link hlink).1
  refine ⟨again, hdecode, halike, ?_⟩
  rw [Codec.encode, Codec.encode, Failure.print_eq_ofRows, Failure.print_eq_ofRows,
    Failure.rows_eq_of_alike halike hcurrent (Failure.allLinksCurrent_of_decodeFrom hdecode)]

/-! A message of two lines that a link repeats, and a type that the reader does not know. -/

def wary : Codec :=
  ⟨{ indicator := "[?] ".toList }, .known (.ofList [['A'], ['B']])⟩

def unknownBeside : Failure Nat :=
  { Failure.ofType 3 ['C'] with
    origin := .surrogate "[?] ".toList, cause := .backRef ⟨3, "[?] C".toList⟩ }

def linkedSource : Failure Nat :=
  { Failure.ofType 5 ['B'] with cause := .backRef ⟨7, "A: x\ny".toList⟩ }

def unsorted : Failure Nat :=
  { Failure.ofType 7 ['A'] with
    message := some "x\ny".toList
    frames := [⟨"p.Q".toList, ['r'], some "S.java".toList, .number 3⟩]
    suppressed := [unknownBeside]
    cause := .owned linkedSource }

theorem decodeFrom_encode_unsorted : ∃ again,
    wary.decodeFrom 0 (wary.encode unsorted) = .ok again ∧ unsorted.alike again = true ∧
      wary.encode again = wary.encode unsorted := by
  have hroot : unsorted.Legible wary 0 := by
    refine ⟨.inl ⟨rfl, by decide, fun _ => by decide⟩, by decide, by decide, ?_, by decide⟩
    intro text htext
    exact ⟨['x'], [['y']], by simpa [unsorted, wary] using htext.symm, by decide, by decide⟩
  have hbeside : unknownBeside.Legible wary 1 :=
    ⟨.inr ⟨rfl, by decide⟩, by decide, by decide, fun _ h => (by cases h), by decide⟩
  have hsource : linkedSource.Legible wary 0 :=
    ⟨.inl ⟨rfl, by decide, fun _ => by decide⟩, by decide, by decide, fun _ h => (by cases h),
      by decide⟩
  have hlineages : unsorted.lineages = [⟨⟨0, .root, unsorted⟩, []⟩,
    ⟨⟨1, .suppressed, unknownBeside⟩, [unsorted]⟩, ⟨⟨0, .cause, linkedSource⟩, [unsorted]⟩] := rfl
  have hlegible : ∀ p ∈ unsorted.lineages, p.node.Legible wary p.depth := by
    rw [hlineages]
    simp [hroot, hbeside, hsource]
  exact decodeFrom_encode (.inl rfl) (by decide) (by decide) hlegible (by decide) 0

end Stacktrace
