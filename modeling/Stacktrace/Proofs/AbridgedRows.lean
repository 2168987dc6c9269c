import Mathlib.Data.List.Infix
import Stacktrace.Proofs.Legible
import Stacktrace.Proofs.WrittenRows

/-!
# Rows with elisions

A text may have an elision in place of the last frames of a failure, where they are also the last
frames of the failure that it hangs off. `abridgedRows` are the rows of a failure with such
elisions; with none they are the rows that are written. The frames of a failure are read from its abridged
rows as they are, when the failure that it hangs off is open with its own frames
(`ParserState.run_framePart`).
-/

namespace Stacktrace

/-- The last frames that are left out, by their number, and the spelling of the line that says so:
the tabs in it beyond the one that is due and the zeros in front of the number. -/
structure Elision where
  count : Nat
  tabs : Nat := 0
  zeros : Nat := 0

namespace Elision

def row (e : Elision) (depth : Nat) : Text :=
  Mark.indent depth ++ (Mark.indent (e.tabs + 1) ++ ("... ".toList ++
    (List.replicate e.zeros '0' ++ Text.ofNat e.count ++ " more".toList)))

def replaceLast (e : Elision) (depth : Nat) (rows : List Text) : List Text :=
  rows.take (rows.length - e.count) ++ [e.row depth]

end Elision

namespace Mark

theorem elided?_indent_succ (tabs zeros n : Nat) :
    elided? (indent (tabs + 1) ++ ("... ".toList ++
      (List.replicate zeros '0' ++ Text.ofNat n ++ " more".toList))) = some (min n maxElided) := by
  refine elided?_eq_some_iff.2 ⟨tabs, List.replicate zeros '0' ++ Text.ofNat n, n, ?_, ?_, rfl⟩
  · rw [List.append_assoc (indent (tabs + 1)), List.append_assoc (indent (tabs + 1)),
      List.append_assoc "... ".toList]
  · exact Text.toNat?_replicate_zero_append zeros n

variable (e : Elision)

theorem ofLine?_elision (depth : Nat) :
    ofLine? depth (e.row depth) = some (elision (min e.count maxElided)) := by
  rw [ofLine?_eq_elision_iff, Elision.row, Text.after?_append, Option.bind_some, elided?_indent_succ]

theorem plain_elision (depth : Nat) : Text.Plain (e.row depth) := by
  have hzeros : Text.Plain (List.replicate e.zeros '0') := by
    constructor <;> intro h <;> exact absurd (List.eq_of_mem_replicate h) (by decide)
  refine plain_indent_append depth (plain_indent_append (e.tabs + 1) ?_)
  simp only [Text.plain_append]
  exact ⟨by decide, ⟨hzeros, Text.plain_ofNat e.count⟩, by decide⟩

end Mark

/-! ## Failures -/

namespace Failure
variable {ι : Type}

/-- Where elisions stand, by the identities of the failures whose last frames they replace. -/
abbrev Elisions (ι : Type) := ι → Option Elision

def framePart (elisions : Elisions ι) (depth : Nat) (f : Failure ι) : List Text :=
  match elisions f.id with
  | none => f.frames.map (frameRow depth)
  | some e => e.replaceLast depth (f.frames.map (frameRow depth))

section FramePart
variable {elisions : Elisions ι} {f : Failure ι} (depth : Nat)

theorem framePart_of_eq_none (h : elisions f.id = none) :
    f.framePart elisions depth = f.frames.map (frameRow depth) := by
  rw [framePart, h]

theorem framePart_of_eq_some {e : Elision} (h : elisions f.id = some e) :
    f.framePart elisions depth =
      (f.frames.take (f.frames.length - e.count)).map (frameRow depth) ++ [e.row depth] := by
  rw [framePart, h, List.map_take, ← List.length_map (f := frameRow depth)]
  rfl

end FramePart

mutual

def abridgedRows [DecidableEq ι] (elisions : Elisions ι) (scope : Scope ι) (depth : Nat) :
    Failure ι → List Text
  | f@⟨_, _, _, _, _, suppressed, cause⟩ =>
    let scope := f.scopeEntry :: scope
    f.framePart elisions depth ++ abridgedSuppressed elisions scope depth suppressed
      ++ abridgedCause elisions scope depth cause

def abridgedSuppressed [DecidableEq ι] (elisions : Elisions ι) (scope : Scope ι) (depth : Nat) :
    List (Failure ι) → List Text
  | [] => []
  | f :: fs => suppressedRow depth f :: abridgedRows elisions scope (depth + 1) f
      ++ abridgedSuppressed elisions scope depth fs

def abridgedCause [DecidableEq ι] (elisions : Elisions ι) (scope : Scope ι) (depth : Nat) :
    Cause ι (Failure ι) → List Text
  | .none => []
  | .owned c => causeRow depth c :: abridgedRows elisions scope depth c
  | .backRef link => [circularRow scope depth link]

end

def abridged [DecidableEq ι] (elisions : Elisions ι) (config : Config) (f : Failure ι) : Text :=
  Text.ofRows config.terminator (f.displayText :: f.abridgedRows elisions [] 0)

section Rows
variable [DecidableEq ι] (elisions : Elisions ι)

theorem abridgedSuppressed_eq_flatMap (scope : Scope ι) (depth : Nat) (fs : List (Failure ι)) :
    abridgedSuppressed elisions scope depth fs =
      fs.flatMap fun f => suppressedRow depth f :: f.abridgedRows elisions scope (depth + 1) := by
  induction fs with
  | nil => rfl
  | cons f fs ih => simp [abridgedSuppressed, ih]

theorem abridgedRows_eq (scope : Scope ι) (depth : Nat) (f : Failure ι) :
    f.abridgedRows elisions scope depth = f.framePart elisions depth ++
      (f.suppressed.flatMap fun s =>
        suppressedRow depth s :: s.abridgedRows elisions (f.scopeEntry :: scope) (depth + 1)) ++
      abridgedCause elisions (f.scopeEntry :: scope) depth f.cause := by
  cases f
  rw [abridgedRows, abridgedSuppressed_eq_flatMap]

theorem abridgedRows_none (scope : Scope ι) (depth : Nat) (f : Failure ι) :
    f.abridgedRows (fun _ => none) scope depth = f.bodyRows scope depth := by
  induction f generalizing scope depth with
  | node f ihSuppressed ihCause =>
    rw [abridgedRows_eq, bodyRows_eq]
    congr 1
    · congr 1
      refine List.flatMap_congr fun s hs => ?_
      rw [ihSuppressed s hs]
    · cases hcause : f.cause with
      | none => rfl
      | owned c => rw [abridgedCause, causeRows, ihCause c hcause]
      | backRef link => rfl

end Rows

theorem abridged_none [DecidableEq ι] (config : Config) (f : Failure ι) :
    f.abridged (fun _ => none) config = f.print config := by
  rw [abridged, abridgedRows_none, print_eq_ofRows, rows]

/-- Whether the elision of a failure, if it has one, stands for no more than the last frames that
the failure has in common with the one that it hangs off. -/
def Shares (elisions : Elisions ι) (above : List (Failure ι)) (f : Failure ι) : Prop :=
  ∀ e ∈ elisions f.id, e.count ≤ Mark.maxElided ∧ ∃ enclosing ∈ above.head?, ∃ shared : List Frame,
    shared <:+ f.frames ∧ shared <:+ enclosing.frames ∧ e.count ≤ shared.length

/-- What a failure says to those that hang off it: its display text and its frames. -/
def shown (f : Failure ι) : Text × List Frame := (f.displayText, f.frames)

namespace Legible
variable {codec : Codec} {elisions : Elisions ι} {depth : Nat} {f : Failure ι}

theorem plain_of_mem_framePart (h : f.Legible codec depth) {row : Text}
    (hrow : row ∈ f.framePart elisions depth) : row.Plain := by
  cases helision : elisions f.id with
  | none =>
    rw [framePart_of_eq_none depth helision] at hrow
    obtain ⟨frame, hframe, rfl⟩ := List.mem_map.1 hrow
    exact h.plain_frameRow hframe
  | some e =>
    rw [framePart_of_eq_some depth helision, List.mem_append, List.mem_singleton] at hrow
    rcases hrow with hrow | rfl
    · obtain ⟨frame, hframe, rfl⟩ := List.mem_map.1 hrow
      exact h.plain_frameRow (List.mem_of_mem_take hframe)
    · exact Mark.plain_elision e depth

theorem pieces_framePart (h : f.Legible codec depth) :
    (f.framePart elisions depth).flatMap Text.pieces = f.framePart elisions depth := by
  rw [← List.flatMap_singleton' (f.framePart elisions depth), List.flatMap_assoc]
  refine List.flatMap_congr fun row hrow => ?_
  rw [List.flatMap_singleton, Text.pieces_of_plain (h.plain_of_mem_framePart hrow)]

end Legible
end Failure

theorem drop_length_sub_of_suffix {α : Type} {shared l : List α} (h : shared <:+ l) {k : Nat}
    (hk : k ≤ shared.length) : l.drop (l.length - k) = shared.drop (shared.length - k) := by
  obtain ⟨before, rfl⟩ := h
  rw [List.length_append, Nat.add_sub_assoc hk, List.drop_length_add_append]

namespace ParserState
open OpenFailure
variable {ι : Type} {codec : Codec}

theorem take?_elision {f parent : OpenFailure} {outer : List OpenFailure} {depth next : Nat}
    {e : Elision} (hphase : f.phase.takesFrames = true) (hdepth : f.depth = depth)
    (hcount : e.count ≤ Mark.maxElided) (hle : e.count ≤ parent.node.frames.length) (line : Nat) :
    take? codec line (e.row depth) ⟨f, parent :: outer, next⟩ = some (.ok
      ⟨f.addFrames (parent.node.frames.drop (parent.node.frames.length - e.count)) .relations,
        parent :: outer, next⟩) := by
  subst hdepth
  rw [take?_of_elision (s := ⟨f, parent :: outer, next⟩) hphase (Mark.ofLine?_elision e f.depth) line,
    Nat.min_eq_left hcount, expand]
  simp only [if_pos hle]

/-- The frames of a failure are read from its abridged rows as they are. -/
theorem run_framePart {elisions : Failure.Elisions ι} {f : Failure ι} {above : List (Failure ι)}
    {start : OpenFailure} {depth : Nat} (hdepth : start.depth = depth)
    (hphase : start.phase.takesFrames = true)
    (hframes : ∀ frame ∈ f.frames, Frame.read frame.render = .ok frame)
    (hshares : f.Shares elisions above) {outer : List OpenFailure}
    (habove : outer.map (·.node.shown) = above.map Failure.shown) (line next : Nat) :
    ∃ phase : Phase, phase.takesRelations = true ∧
      run codec line (f.framePart elisions depth) ⟨start, outer, next⟩ =
        .ok ⟨start.addFrames f.frames phase, outer, next⟩ := by
  cases helision : elisions f.id with
  | none =>
    obtain ⟨phase, hnew, hrun⟩ := run_frameRows codec hdepth hphase hframes outer line next
    refine ⟨phase, Phase.takesRelations_of_takesFrames hnew, ?_⟩
    rw [Failure.framePart_of_eq_none depth helision]
    exact hrun
  | some e =>
    obtain ⟨hcount, enclosing, henclosing, shared, hsuffix, hsuffix', hle⟩ := hshares e helision
    obtain ⟨above, rfl⟩ := List.head?_eq_some_iff.1 henclosing
    obtain ⟨parent, outer, rfl, hparent, -⟩ := List.map_eq_cons_iff.1 habove
    have henclosed : parent.node.frames = enclosing.frames := congrArg Prod.snd hparent
    let kept := f.frames.take (f.frames.length - e.count)
    -- the frames that stand are read first, and then the rest is copied from the parent
    have hkept : ∀ frame ∈ kept, Frame.read frame.render = .ok frame :=
      fun frame hframe => hframes frame (List.mem_of_mem_take hframe)
    obtain ⟨phase, hnew, hrun⟩ :=
      run_frameRows codec hdepth hphase hkept (parent :: outer) line next
    have hcopied : parent.node.frames.drop (parent.node.frames.length - e.count) =
        f.frames.drop (f.frames.length - e.count) := by
      rw [henclosed, drop_length_sub_of_suffix hsuffix hle, drop_length_sub_of_suffix hsuffix' hle]
    have hcount' : e.count ≤ parent.node.frames.length :=
      henclosed ▸ Nat.le_trans hle hsuffix'.length_le
    have htake : take? codec (line + kept.length) (e.row depth)
        ⟨start.addFrames kept phase, parent :: outer, next⟩ = _ :=
      take?_elision (f := start.addFrames kept phase) hnew hdepth hcount hcount'
        (line + kept.length)
    refine ⟨.relations, rfl, ?_⟩
    rw [Failure.framePart_of_eq_some depth helision, run_append, hrun, Except.bind, List.length_map,
      run_cons_of_step (step_of_take? htake), hcopied, OpenFailure.addFrames, OpenFailure.addFrames,
      OpenFailure.addFrames, update_node, List.append_assoc, List.take_append_drop]
    rfl

end ParserState
end Stacktrace
