import Stacktrace.Proofs.MarkRows
import Stacktrace.Proofs.ParserSteps
import Stacktrace.Proofs.TextLines

/-!
# Where reading fails

A line is refused as soon as it is read, whatever comes after it (`Refuses`), so a text that begins
with the same lines is refused at the same line and for the same reason. The one error that waits for
the end of the text is a circular reference that is never closed with the display text of an open
failure; it is found at the line on which the reference begins (`opening_invariant`).
-/

namespace Stacktrace

/-- What the line of an error looks like. -/
def DecodeError.Shows (line : Text) : DecodeError → Prop
  | malformedFrame _ error => ∃ tabs rest,
    line = Mark.indent (tabs + 1) ++ Mark.atToken ++ rest ∧ Frame.read rest = .error error
  | danglingElision _ count => ∃ tabs digits n,
    line = Mark.indent (tabs + 1) ++ "... ".toList ++ digits ++ " more".toList ∧
      Text.toNat? digits = some n ∧ count = min n 4294967295
  | unresolvedCircularReference _ _ => ∃ tabs rest,
    line = Mark.indent (tabs + 1) ++ Mark.circularToken ++ rest
  | emptyInput | unknownLineFormat _ => True

namespace ParserState
variable {codec : Codec}

/-! ## Lines that are refused -/

/-- An error that a line gives when it is read. -/
structure Refuses (line : Nat) (text : Text) (e : DecodeError) : Prop where
  line_eq : e.line? = some line
  shows : e.Shows text
  waits_not (found : Nat) (display : Text) : e ≠ .unresolvedCircularReference found display

theorem refuses_of_takeMark? {line : Nat} {text : Text} {s : ParserState} {mark : Mark}
    {e : DecodeError} (hmark : Mark.ofLine? s.current.depth text = some mark)
    (h : s.takeMark? codec line mark = some (.error e)) : Refuses line text e := by
  cases mark with
  | frame rest =>
    simp only [takeMark?, Option.ite_none_right_eq_some] at h
    obtain ⟨-, h⟩ := h
    split at h
    · next error hread =>
      simp only [Option.some.injEq, Except.error.injEq] at h
      subst h
      refine ⟨rfl, ⟨s.current.depth, rest, ?_, hread⟩, by simp⟩
      rw [Mark.eq_row_of_ofLine? hmark (by simp), Mark.row, ← Mark.indent_succ_append,
        List.append_assoc]
    · simp at h
  | elision count =>
    simp only [takeMark?, Option.ite_none_right_eq_some, Option.some.injEq] at h
    obtain ⟨-, h⟩ := h
    have hshows : (DecodeError.danglingElision line count).Shows text :=
      Mark.elided?_eq_some_iff.1 (Mark.elided?_of_ofLine? hmark)
    rw [expand] at h
    split at h
    · exact Except.error.inj h ▸ ⟨rfl, hshows, by simp⟩
    · dsimp only at h
      split at h
      · simp at h
      · exact Except.error.inj h ▸ ⟨rfl, hshows, by simp⟩
  | suppressed header => simp [takeMark?] at h
  | circular rest => simp [takeMark?] at h
  | causedBy header => simp [takeMark?] at h

theorem refuses_of_take? {line : Nat} {text : Text} {s : ParserState} {e : DecodeError}
    (h : s.take? codec line text = some (.error e)) : Refuses line text e := by
  rw [take?] at h
  split at h
  · simp at h
  · split at h
    · simp at h
    · obtain ⟨mark, hmark, h⟩ := Option.bind_eq_some_iff.1 h
      exact refuses_of_takeMark? hmark h

theorem refuses_of_feed {line : Nat} {text : Text} {next : Nat} {current : OpenFailure}
    {parents : List OpenFailure} {e : DecodeError}
    (h : feed codec line text next current parents = .error e) : Refuses line text e := by
  induction parents generalizing current with
  | nil =>
    rw [feed] at h
    cases htake : take? codec line text ⟨current, [], next⟩ with
    | none =>
      rw [htake, Option.getD_none, Except.error.injEq] at h
      exact h ▸ ⟨rfl, trivial, by simp⟩
    | some result =>
      rw [htake, Option.getD_some] at h
      exact refuses_of_take? (h ▸ htake)
  | cons parent outer ih =>
    rw [feed] at h
    cases htake : take? codec line text ⟨current, parent :: outer, next⟩ with
    | none =>
      rw [htake] at h
      exact ih h
    | some result =>
      rw [htake] at h
      dsimp only at h
      exact refuses_of_take? (h ▸ htake)

/-- Lines are refused at the first of them that is. -/
theorem exists_step_of_run {line : Nat} {lines : List Text} {s : ParserState} {e : DecodeError}
    (h : run codec line lines s = .error e) : ∃ before text after s',
      lines = before ++ text :: after ∧ run codec line before s = .ok s' ∧
        s'.step codec (line + before.length) text = .error e := by
  induction lines generalizing line s with
  | nil => simp [run] at h
  | cons text lines ih =>
    rw [run] at h
    cases hstep : s.step codec line text with
    | error found =>
      rw [hstep, Except.bind, Except.error.injEq] at h
      exact ⟨[], text, lines, s, rfl, rfl, h ▸ hstep⟩
    | ok s' =>
      rw [hstep, Except.bind] at h
      obtain ⟨before, last, after, final, rfl, hrun, hlast⟩ := ih h
      refine ⟨text :: before, last, after, final, rfl, ?_, ?_⟩
      · rw [run, hstep, Except.bind, hrun]
      · rw [List.length_cons, Nat.add_comm before.length, ← Nat.add_assoc]
        exact hlast

/-- Lines that begin with a line that is refused, and with what is before it, are refused for it. -/
theorem run_append_of_step {line : Nat} {before : List Text} {text : Text} {s s' : ParserState}
    {e : DecodeError} (hrun : run codec line before s = .ok s')
    (hstep : s'.step codec (line + before.length) text = .error e) (after : List Text) :
    run codec line (before ++ text :: after) s = .error e := by
  rw [run_append, hrun, Except.bind, run, hstep, Except.bind]

/-! ## Circular references that stay open -/

/-- Whether the circular reference that is being read, if there is one, begins on the line that it
says. -/
def Opening (lines : List Text) (s : ParserState) : Prop :=
  ∀ pending ∈ s.current.phase.pending?, 0 < pending.line ∧ ∃ text ∈ lines[pending.line]?,
    ∃ tabs rest, text = Mark.indent (tabs + 1) ++ Mark.circularToken ++ rest

theorem opening_of_pending?_eq_none {lines : List Text} {s : ParserState}
    (h : s.current.phase.pending? = none) : s.Opening lines := by
  intro pending hpending
  simp [h] at hpending

/-- A reference that stays open goes on saying where it began. -/
theorem opening_refer {lines : List Text} {s : ParserState} {pending : PendingReference}
    (hpos : 0 < pending.line) {text : Text} (htext : text ∈ lines[pending.line]?)
    (hshows : ∃ tabs rest, text = Mark.indent (tabs + 1) ++ Mark.circularToken ++ rest) :
    (s.refer pending).Opening lines := by
  rw [refer]
  split
  · rintro _ ⟨⟩
    exact ⟨hpos, text, htext, hshows⟩
  · split
    · exact opening_of_pending?_eq_none rfl
    · rintro _ ⟨⟩
      exact ⟨hpos, text, htext, hshows⟩

theorem opening_invariant (codec : Codec) (first : Nat) :
    Invariant codec first fun lines s => lines ≠ [] ∧ s.Opening lines where
  start header _ := ⟨List.cons_ne_nil _ _, opening_of_pending?_eq_none rfl⟩
  attach _ h := ⟨h.1, opening_of_pending?_eq_none (OpenFailure.pending?_attach _ _)⟩
  takes {lines text s s'} htakes h := by
    refine ⟨List.concat_ne_nil _ _, ?_⟩
    cases htakes with
    | message => exact opening_of_pending?_eq_none rfl
    | frame => exact opening_of_pending?_eq_none rfl
    | elision => exact opening_of_pending?_eq_none rfl
    | suppressed => exact opening_of_pending?_eq_none rfl
    | causedBy => exact opening_of_pending?_eq_none rfl
    | @circular rest _ hmark =>
      have hlast : text ∈ (lines ++ [text])[lines.length]? := by simp
      refine opening_refer (List.length_pos_of_ne_nil h.1) hlast ⟨s.current.depth, rest, ?_⟩
      rw [Mark.eq_row_of_ofLine? hmark (by simp), Mark.row, ← Mark.indent_succ_append,
        List.append_assoc]
    | @continued pending hphase =>
      obtain ⟨hpos, opening, hopening, hshows⟩ := h.2 pending (by rw [hphase]; rfl)
      have hbound := (List.getElem?_eq_some_iff.1 hopening).1
      exact opening_refer hpos ((List.getElem?_append_left hbound).trans hopening) hshows

theorem error_cases {first : Nat} {header : Text} {rest : List Text} {e : DecodeError}
    (hne : header ≠ []) (h : codec.ofLines first (header :: rest) = .error e) :
    (∃ before text after s, rest = before ++ text :: after ∧
      run codec 1 before ⟨.ofHeader codec 0 .root first header, [], first + 1⟩ = .ok s ∧
        s.step codec (1 + before.length) text = .error e) ∨
    ∃ s pending display,
      run codec 1 rest ⟨.ofHeader codec 0 .root first header, [], first + 1⟩ = .ok s ∧
        pending ∈ s.current.phase.pending? ∧
          e = .unresolvedCircularReference pending.line display := by
  rw [Codec.ofLines.eq_3 _ _ _ _ hne] at h
  cases hrun : run codec 1 rest ⟨.ofHeader codec 0 .root first header, [], first + 1⟩ with
  | error found =>
    rw [hrun, Except.bind, Except.error.injEq] at h
    exact .inl (exists_step_of_run (h ▸ hrun))
  | ok s =>
    rw [hrun, Except.bind, finish] at h
    split at h
    · next pending hphase =>
      exact .inr ⟨s, pending, _, rfl, by rw [hphase]; rfl, (Except.error.inj h).symm⟩
    · simp at h

end ParserState

namespace Codec

theorem ofLines_eq_emptyInput_iff {codec : Codec} {first : Nat} {lines : List Text} :
    codec.ofLines first lines = .error .emptyInput ↔ lines = [] ∨ lines.head? = some [] := by
  cases lines with
  | nil => simp [ofLines]
  | cons header rest =>
    by_cases hne : header = []
    · simp [ofLines, hne]
    · simp only [reduceCtorEq, List.head?_cons, Option.some.injEq, hne, or_self, iff_false]
      intro h
      rcases ParserState.error_cases hne h with ⟨_, _, _, _, -, -, hstep⟩ | ⟨_, _, _, -, -, h⟩
      · simpa [DecodeError.line?] using (ParserState.refuses_of_feed hstep).line_eq
      · cases h

theorem ofLines_error_local {codec : Codec} {first : Nat} {lines : List Text} {e : DecodeError}
    {i : Nat} (h : codec.ofLines first lines = .error e) (hi : e.line? = some i) :
    0 < i ∧ (∃ line ∈ lines[i]?, e.Shows line) ∧
      ((∀ line display, e ≠ .unresolvedCircularReference line display) →
        ∀ other : List Text, other.take (i + 1) = lines.take (i + 1) →
          codec.ofLines first other = .error e) := by
  have hsome : ¬ (lines = [] ∨ lines.head? = some []) := by
    intro hempty
    rw [ofLines_eq_emptyInput_iff.2 hempty, Except.error.injEq] at h
    simp [← h, DecodeError.line?] at hi
  obtain ⟨header, rest, rfl⟩ := List.exists_cons_of_ne_nil fun hnil => hsome (.inl hnil)
  have hne : header ≠ [] := fun hnil => hsome (.inr (by rw [hnil]; rfl))
  rcases ParserState.error_cases hne h with
    ⟨before, text, after, s, rfl, hrun, hstep⟩ | ⟨s, pending, display, hrun, hpending, rfl⟩
  · obtain ⟨hline, hshows, -⟩ := ParserState.refuses_of_feed hstep
    obtain rfl : before.length + 1 = i :=
      (Nat.add_comm _ _).trans (Option.some.inj (hline.symm.trans hi))
    refine ⟨Nat.succ_pos _, ⟨text, by simp, hshows⟩, ?_⟩
    intro _ other hother
    -- the other lines go through the same states up to the line that is refused
    have hsame : other = header :: (before ++ text :: other.drop (before.length + 2)) :=
      calc other = other.take (before.length + 2) ++ other.drop (before.length + 2) :=
            (List.take_append_drop _ other).symm
        _ = header :: (before ++ [text]) ++ other.drop (before.length + 2) := by
            rw [hother, List.take_succ_cons, List.take_length_add_append]
            rfl
        _ = header :: (before ++ text :: other.drop (before.length + 2)) := by
            rw [List.cons_append, List.append_assoc, List.singleton_append]
    rw [hsame, ofLines.eq_3 _ _ _ _ hne, ParserState.run_append_of_step hrun hstep]
    rfl
  · obtain ⟨-, hopening⟩ := (ParserState.opening_invariant codec first).of_run_start hne hrun
    obtain rfl : pending.line = i := Option.some.inj hi
    obtain ⟨hpos, text, htext, hshows⟩ := hopening pending hpending
    exact ⟨hpos, ⟨text, htext, hshows⟩, fun hnot => absurd rfl (hnot _ _)⟩

end Codec

/-- The empty input apart, an error is found at a line after the first that looks the way the error
says, and but for circular references that stay open nothing after that line matters. -/
theorem decodeFrom_error_local (codec : Codec) (first : Nat) (t : Text) :
    (codec.decodeFrom first t = .error .emptyInput ↔ t.lines.head? = some []) ∧
      ∀ e i, codec.decodeFrom first t = .error e → e.line? = some i →
        0 < i ∧ i < t.lines.length ∧ (∃ line, t.lines[i]? = some line ∧ e.Shows line) ∧
          ((∀ line display, e ≠ .unresolvedCircularReference line display) →
            ∀ other : Text, other.lines.take (i + 1) = t.lines.take (i + 1) →
              codec.decodeFrom first other = .error e) := by
  refine ⟨?_, ?_⟩
  · rw [Codec.decodeFrom, Codec.ofLines_eq_emptyInput_iff, or_iff_right t.lines_ne_nil]
  · intro e i h hi
    obtain ⟨hpos, ⟨line, hline, hshows⟩, hlocal⟩ := Codec.ofLines_error_local h hi
    exact ⟨hpos, (List.getElem?_eq_some_iff.1 hline).1, ⟨line, hline, hshows⟩,
      fun hnot other => hlocal hnot other.lines⟩

/-- More frames are to be copied than there are, in a failure with a message of two lines. -/
def tooManyLeftOut : Text :=
  Text.ofRows ['\n'] ["A: x".toList, "\tSuppressed: B: y".toList, "z".toList,
    "\t\tat p.Q.run(S.java:3)".toList, "\t\t\t... 99999999999 more".toList,
    "\t\t[CIRCULAR REFERENCE:A: x]".toList]

theorem decodeFrom_tooManyLeftOut :
    Codec.decodeFrom {} 0 tooManyLeftOut = .error (.danglingElision 4 4294967295) ∧
      ∀ other : Text, other.lines.take 5 = tooManyLeftOut.lines.take 5 →
        Codec.decodeFrom {} 0 other = .error (.danglingElision 4 4294967295) := by
  have h : Codec.decodeFrom {} 0 tooManyLeftOut = .error (.danglingElision 4 4294967295) := rfl
  obtain ⟨-, -, -, hlocal⟩ := (decodeFrom_error_local {} 0 tooManyLeftOut).2 _ 4 h rfl
  exact ⟨h, hlocal (by simp)⟩

end Stacktrace
