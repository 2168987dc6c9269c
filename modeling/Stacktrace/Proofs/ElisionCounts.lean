import Stacktrace.Proofs.ErrorLines
import Stacktrace.Proofs.Numerals
import Stacktrace.Proofs.OpenStack
import Stacktrace.Proofs.RowSteps
import Stacktrace.Trace.ElisionPattern

/-!
# How many frames an elision asks for

A text matches the pattern of an elision if and only if it asks for some number of frames, and its
count is that number, or the greatest of 32 bits where it is larger (`elisionCount?_eq_some_iff`). A
failure that hangs off one with fewer frames than that is given as many frames as its elision asks
for, or the elision is refused; the frames that it is given are those of the graph that is read
(`ParserState.hasFrames_of_run`).
-/

namespace Stacktrace

namespace CapturePattern
open RegularExpression

theorem mem_literally {t u : Text} : u ∈ (literally t).matches' ↔ u = t := by
  induction t generalizing u with
  | nil => exact Language.mem_one u
  | cons c t ih =>
    rw [literally, matches'_mul, matches'_char, Language.mem_mul]
    constructor
    · rintro ⟨_, rfl, rest, hrest, rfl⟩
      rw [ih.1 hrest, List.singleton_append]
    · rintro rfl
      exact ⟨[c], rfl, t, ih.2 rfl, rfl⟩

theorem mem_oneOf {cs : List Char} {u : Text} : u ∈ (oneOf cs).matches' ↔ ∃ c ∈ cs, u = [c] := by
  induction cs with
  | nil => simp [oneOf]
  | cons d cs ih =>
    rw [oneOf, matches'_add, matches'_char, Language.mem_add, ih, List.exists_mem_cons_iff]
    exact Iff.rfl

theorem mem_star_iff {P : RegularExpression Char} {cs : List Char}
    (hP : ∀ u, u ∈ P.matches' ↔ ∃ c ∈ cs, u = [c]) {u : Text} :
    u ∈ P.star.matches' ↔ ∀ c ∈ u, c ∈ cs := by
  rw [matches'_star, Language.mem_kstar]
  constructor
  · rintro ⟨pieces, rfl, hpieces⟩ c hc
    obtain ⟨piece, hpiece, hc⟩ := List.mem_flatten.1 hc
    obtain ⟨d, hd, rfl⟩ := (hP piece).1 (hpieces piece hpiece)
    rw [List.mem_singleton.1 hc]
    exact hd
  · intro hu
    refine ⟨u.map ([·]), ?_, ?_⟩
    · rw [← List.flatMap_def, List.flatMap_singleton']
    · intro piece hpiece
      obtain ⟨c, hc, rfl⟩ := List.mem_map.1 hpiece
      exact (hP _).2 ⟨c, hu c hc, rfl⟩

end CapturePattern

namespace Text

theorem isDigit_iff_mem {c : Char} : c.isDigit = true ↔ c ∈ "0123456789".toList := by
  constructor
  · intro hc
    have hlisted : ∀ n < 10, Char.ofNat ('0'.toNat + n) ∈ "0123456789".toList := by decide
    obtain ⟨hvalue, hlt⟩ := toNat_of_isDigit hc
    rw [← Char.ofNat_toNat c, hvalue]
    exact hlisted _ hlt
  · have hall : "0123456789".toList.all Char.isDigit = true := by decide
    exact List.all_eq_true.1 hall c

theorem exists_digits_iff {t : Text} :
    (∃ n, Digits t n) ↔ t ≠ [] ∧ ∀ c ∈ t, c ∈ "0123456789".toList := by
  simp only [← toNat?_eq_some_iff, toNat?, ← isDigit_iff_mem, List.all_eq_true,
    Option.ite_none_right_eq_some]
  constructor
  · rintro ⟨_, h, _⟩
    exact h
  · intro h
    exact ⟨_, h, rfl⟩

end Text

namespace Mark
open CapturePattern RegularExpression

/-- Whether a text is an elision of `n` frames. -/
def AsksFor (t : Text) (n : Nat) : Prop :=
  ∃ tabs digits, t = indent (tabs + 1) ++ "... ".toList ++ digits ++ " more".toList ∧
    Text.Digits digits n

/-! ## The pattern -/

theorem mem_before_elisionPattern {u : Text} :
    u ∈ elisionPattern.before.matches' ↔ ∃ tabs, u = indent (tabs + 1) ++ "... ".toList := by
  have htab (u : Text) : u ∈ (char '\t').matches' ↔ ∃ c ∈ ['\t'], u = [c] := by
    simp only [matches'_char, List.mem_singleton, exists_eq_left]
    exact Iff.rfl
  simp only [elisionPattern, matches'_mul, Language.mem_mul, mem_literally, mem_star_iff htab,
    List.mem_singleton]
  constructor
  · rintro ⟨_, ⟨tabs, htabs, _, rfl, rfl⟩, _, rfl, rfl⟩
    refine ⟨tabs.length, ?_⟩
    rw [List.eq_replicate_of_mem htabs, List.length_replicate, indent, List.replicate_succ']
  · rintro ⟨tabs, rfl⟩
    refine ⟨_, ⟨indent tabs, fun c => List.eq_of_mem_replicate, ['\t'], rfl, rfl⟩, _, rfl, ?_⟩
    rw [indent, indent, List.replicate_succ']

theorem mem_captured_elisionPattern {u : Text} :
    u ∈ elisionPattern.captured.matches' ↔ ∃ n, Text.Digits u n := by
  simp only [elisionPattern, digitPattern, matches'_mul, Language.mem_mul, mem_oneOf,
    mem_star_iff fun _ => mem_oneOf, Text.exists_digits_iff]
  constructor
  · rintro ⟨_, ⟨c, hc, rfl⟩, rest, hrest, rfl⟩
    exact ⟨List.cons_ne_nil c rest, List.forall_mem_cons.2 ⟨hc, hrest⟩⟩
  · rintro ⟨hne, hdigits⟩
    obtain ⟨c, rest, rfl⟩ := List.exists_cons_of_ne_nil hne
    obtain ⟨hc, hrest⟩ := List.forall_mem_cons.1 hdigits
    exact ⟨[c], ⟨c, hc, rfl⟩, rest, hrest, rfl⟩

/-- A text matches in one way at most, with the digits between the tabs and dots and the last word. -/
theorem foundBy_elisionPattern_iff {capture? : Text → Option Text} :
    elisionPattern.FoundBy capture? ↔ ∀ t digits, capture? t = some digits ↔
      ∃ tabs n, t = indent (tabs + 1) ++ "... ".toList ++ digits ++ " more".toList ∧
        Text.Digits digits n := by
  refine forall_congr' fun t => forall_congr' fun digits => iff_congr Iff.rfl ?_
  constructor
  · rintro ⟨a, b, rfl, ha, hdigits, hb⟩
    obtain ⟨tabs, rfl⟩ := mem_before_elisionPattern.1 ha
    obtain ⟨n, hn⟩ := mem_captured_elisionPattern.1 hdigits
    exact ⟨tabs, n, by rw [mem_literally.1 hb], hn⟩
  · rintro ⟨tabs, n, rfl, hn⟩
    exact ⟨_, _, rfl, mem_before_elisionPattern.2 ⟨tabs, rfl⟩, mem_captured_elisionPattern.2 ⟨n, hn⟩,
      mem_literally.2 rfl⟩

theorem foundBy_elisionDigits? : elisionPattern.FoundBy elisionDigits? := by
  refine foundBy_elisionPattern_iff.2 fun t digits => ?_
  have hdigits : (digits ≠ [] && digits.all Char.isDigit) = true ↔ ∃ n, Text.Digits digits n := by
    simp only [Text.exists_digits_iff, ← Text.isDigit_iff_mem, Bool.and_eq_true, decide_eq_true_eq,
      List.all_eq_true]
  rw [elisionDigits?, Option.ite_none_right_eq_some, Option.filter_eq_some_iff, ← and_assoc,
    eq_elision_iff, hdigits]
  exact ⟨fun ⟨⟨tabs, ht⟩, n, hn⟩ => ⟨tabs, n, ht, hn⟩, fun ⟨tabs, n, ht, hn⟩ => ⟨⟨tabs, ht⟩, n, hn⟩⟩

section Captures
variable {capture? : Text → Option Text} (hcapture : elisionPattern.FoundBy capture?)
include hcapture

theorem elisionCount?_eq_some_iff {t : Text} {count : UInt32} :
    elisionCount? capture? t = some count ↔ ∃ n, AsksFor t n ∧ count.toNat = min n maxElided := by
  rw [elisionCount?, Option.map_eq_some_iff]
  constructor
  · rintro ⟨digits, hdigits, rfl⟩
    obtain ⟨tabs, n, ht, hn⟩ := (foundBy_elisionPattern_iff.1 hcapture _ _).1 hdigits
    exact ⟨n, ⟨tabs, digits, ht, hn⟩, Text.toNat_getD_toUInt32? hn⟩
  · rintro ⟨n, ⟨tabs, digits, ht, hn⟩, hcount⟩
    have hdigits := (foundBy_elisionPattern_iff.1 hcapture _ _).2 ⟨tabs, n, ht, hn⟩
    refine ⟨digits, hdigits, UInt32.toNat_inj.1 ?_⟩
    rw [Text.toNat_getD_toUInt32? hn, hcount, maxElided]

theorem elisionCount?_eq_none_iff {t : Text} :
    elisionCount? capture? t = none ↔ ∀ n, ¬ AsksFor t n := by
  rw [elisionCount?, Option.map_eq_none_iff, Option.eq_none_iff_forall_ne_some]
  constructor
  · rintro h n ⟨tabs, digits, ht, hn⟩
    exact h digits ((foundBy_elisionPattern_iff.1 hcapture _ _).2 ⟨tabs, n, ht, hn⟩)
  · intro h digits hdigits
    obtain ⟨tabs, n, ht, hn⟩ := (foundBy_elisionPattern_iff.1 hcapture _ _).1 hdigits
    exact h n ⟨tabs, digits, ht, hn⟩

end Captures

theorem elided?_eq_some_iff_asksFor {t : Text} {count : Nat} :
    elided? t = some count ↔ ∃ n, AsksFor t n ∧ count = min n maxElided := by
  rw [elided?_eq_some_iff]
  constructor
  · rintro ⟨tabs, digits, n, ht, hn, rfl⟩
    exact ⟨n, ⟨tabs, digits, ht, Text.toNat?_eq_some_iff.1 hn⟩, rfl⟩
  · rintro ⟨n, ⟨tabs, digits, ht, hn⟩, rfl⟩
    exact ⟨tabs, digits, n, ht, Text.toNat?_eq_some_iff.2 hn, rfl⟩

/-- The count is the one that a reader of traces takes from the line. -/
theorem elided?_eq_elisionCount? {capture? : Text → Option Text}
    (hcapture : elisionPattern.FoundBy capture?) (t : Text) :
    elided? t = (elisionCount? capture? t).map UInt32.toNat := by
  ext count
  rw [elided?_eq_some_iff_asksFor, Option.map_eq_some_iff]
  simp only [elisionCount?_eq_some_iff hcapture]
  constructor
  · rintro ⟨n, hn, rfl⟩
    have hlt : min n maxElided < UInt32.size := Nat.lt_of_le_of_lt (Nat.min_le_right _ _) (by decide)
    have hcount := UInt32.toNat_ofNat_of_lt' hlt
    exact ⟨UInt32.ofNat (min n maxElided), ⟨n, hn, hcount⟩, hcount⟩
  · rintro ⟨_, ⟨n, hn, hcount⟩, rfl⟩
    exact ⟨n, hn, hcount⟩

end Mark

/-! ## Frames that have been read -/

namespace Failure
variable {ι : Type}

/-- Whether a graph has a failure with an identity and with frames. -/
def HasFrames (i : ι) (frames : List Frame) (g : Failure ι) : Prop :=
  ∃ f ∈ g.nodes, f.id = i ∧ f.frames = frames

theorem hasFrames_iff {i : ι} {frames : List Frame} {g : Failure ι} : g.HasFrames i frames ↔
    (g.id = i ∧ g.frames = frames) ∨ ∃ c ∈ g.children, c.HasFrames i frames := by
  constructor
  · rintro ⟨f, hf, h⟩
    rcases mem_nodes.1 hf with rfl | ⟨c, hc, hf⟩
    · exact .inl h
    · exact .inr ⟨c, hc, f, hf, h⟩
  · rintro (h | ⟨c, hc, f, hf, h⟩)
    · exact ⟨g, self_mem_nodes g, h⟩
    · exact ⟨f, nodes_subset_of_mem_children hc hf, h⟩

theorem HasFrames.mono {i : ι} {frames : List Frame} {f g : Failure ι} (h : f.HasFrames i frames)
    (hid : g.id = f.id) (hframes : g.frames = f.frames) (hchildren : f.children ⊆ g.children) :
    g.HasFrames i frames := by
  rw [hasFrames_iff] at h ⊢
  rw [hid, hframes]
  exact h.imp_right fun ⟨c, hc, h⟩ => ⟨c, hchildren hc, h⟩

end Failure

namespace ParserState
variable {codec : Codec} {first : Nat}

/-- Whether a failure of the graph that is being read has an identity and, to its end, frames. -/
def HasFrames (i : Nat) (frames : List Frame) (s : ParserState) : Prop :=
  (∃ f ∈ s.parents, f.node.HasFrames i frames) ∨
    s.current.phase.takesFrames = false ∧ s.current.node.HasFrames i frames

variable {i : Nat} {frames : List Frame}

theorem HasFrames.refer {s : ParserState} (h : s.HasFrames i frames)
    (hcause : s.current.node.cause = .none) (pending : PendingReference) :
    (s.refer pending).HasFrames i frames := by
  rcases refer_cases s pending with ⟨still, -, hrefer⟩ | ⟨display, f, -, -, hrefer⟩
  · rw [hrefer]
    exact h.imp_right fun ⟨_, h⟩ => ⟨rfl, h⟩
  · rw [hrefer]
    refine h.imp_right fun ⟨_, h⟩ => ⟨rfl, h.mono rfl rfl ?_⟩
    intro c hc
    rcases Failure.mem_children.1 hc with hc | hc
    · exact Failure.mem_children.2 (.inl hc)
    · cases hcause.symm.trans hc

theorem HasFrames.takes {line : Nat} {text : Text} {s s' : ParserState} (h : s.HasFrames i frames)
    (hsound : s.Sound first) (htakes : Takes codec line text s s') : s'.HasFrames i frames := by
  have hbusy (hphase : s.current.phase.takesFrames = true) :
      ∃ f ∈ s.parents, f.node.HasFrames i frames :=
    h.resolve_right fun hcurrent => by simp [hphase] at hcurrent
  have hdescend : ∃ f ∈ s.current :: s.parents, f.node.HasFrames i frames :=
    (List.exists_mem_cons_iff _ _ _).2 (h.symm.imp_left And.right)
  cases htakes with
  | message hphase => exact .inl (hbusy (by rw [hphase]; rfl))
  | frame hphase => exact .inl (hbusy hphase)
  | elision hphase => exact .inl (hbusy hphase)
  | suppressed => exact .inl hdescend
  | causedBy => exact .inl hdescend
  | circular hphase =>
    exact h.refer (hsound.stack.1.cause_eq_none
      (OpenFailure.Sound.ne_complete_of_takesRelations hphase)) _
  | continued hphase => exact h.refer (hsound.stack.1.cause_eq_none (by simp [hphase])) _

theorem HasFrames.attach {next : Nat} {child parent : OpenFailure} {outer : List OpenFailure}
    (h : HasFrames i frames ⟨child, parent :: outer, next⟩)
    (hsound : Sound first ⟨child, parent :: outer, next⟩) :
    HasFrames i frames ⟨parent.attach child, outer, next⟩ := by
  have hchildren : (parent.attach child).node.children = parent.node.children ++ [child.node] :=
    OpenFailure.children_attach (hsound.stack.2.1.cause_eq_none
      (OpenFailure.Sound.ne_complete_of_takesRelations hsound.stack.1.position.1))
  have hphase : (parent.attach child).phase.takesFrames = false := by
    rcases OpenFailure.phase_attach parent child with h | h <;> rw [h] <;> rfl
  have hchild (h : child.node.HasFrames i frames) : (parent.attach child).node.HasFrames i frames :=
    Failure.hasFrames_iff.2 (.inr ⟨child.node, by simp [hchildren], h⟩)
  have hparent (h : parent.node.HasFrames i frames) :
      (parent.attach child).node.HasFrames i frames := by
    have hid := congrArg Prod.fst (OpenFailure.scopeEntry_attach parent child)
    refine h.mono hid ?_ (by simp [hchildren])
    rw [OpenFailure.attach]
    split <;> rfl
  rcases h with h | ⟨-, h⟩
  · rcases (List.exists_mem_cons_iff _ _ _).1 h with h | h
    · exact .inr ⟨hphase, hparent h⟩
    · exact .inl h
  · exact .inr ⟨hphase, hchild h⟩

theorem hasFrames_kept (codec : Codec) (first i : Nat) (frames : List Frame) :
    Kept codec fun _ s => s.Sound first ∧ s.HasFrames i frames where
  attach _ h := ⟨h.1.attach, h.2.attach h.1⟩
  takes htakes h := ⟨h.1.takes htakes, h.2.takes h.1 htakes⟩

/-- Frames that a failure has to its end are those that it has in the graph. -/
theorem hasFrames_of_run {header : Text} {before after : List Text} {s : ParserState}
    {g : Failure Nat} (h : codec.ofLines first (header :: (before ++ after)) = .ok g)
    (hrun : run codec 1 before ⟨.ofHeader codec 0 .root first header, [], first + 1⟩ = .ok s)
    (hs : s.HasFrames i frames) : g.HasFrames i frames := by
  obtain ⟨header', _, _, hsame, hne, -⟩ := exists_run_of_ofLines h
  obtain ⟨rfl, -⟩ := List.cons.inj hsame
  have hsound := (sound_invariant codec first).of_run_start hne hrun
  obtain ⟨root, next, -, rfl, -, hroot⟩ := (hasFrames_kept codec first i frames).of_ofLines
    (n := before.length) h (by rw [List.take_left]; exact hrun) ⟨hsound, hs⟩
  rcases hroot with ⟨f, hf, -⟩ | ⟨-, h⟩
  · cases hf
  · exact h

/-! ## Elisions that are read -/

theorem step_of_asksFor {s : ParserState} (hphase : s.current.phase.takesFrames = true) {rest : Text}
    {n : Nat} (h : Mark.AsksFor rest n) (line : Nat) :
    s.step codec line (Mark.indent s.current.depth ++ rest) = s.expand line (min n Mark.maxElided) := by
  have hmark : Mark.ofLine? s.current.depth (Mark.indent s.current.depth ++ rest) =
      some (.elision (min n Mark.maxElided)) := by
    rw [Mark.ofLine?_eq_elision_iff, Text.after?_append, Option.bind_some,
      Mark.elided?_eq_some_iff_asksFor]
    exact ⟨n, h, rfl⟩
  exact step_of_take? (take?_of_elision hphase hmark line)

/-- A text is refused at the first line that is. -/
theorem decodeFrom_of_step {header line : Text} {before : List Text} {s : ParserState}
    {e : DecodeError} (hne : header ≠ [])
    (hrun : run codec 1 before ⟨.ofHeader codec 0 .root first header, [], first + 1⟩ = .ok s)
    (hstep : s.step codec (1 + before.length) line = .error e) {t : Text}
    (ht : header :: (before ++ [line]) <+: t.lines) : codec.decodeFrom first t = .error e := by
  obtain ⟨after, hafter⟩ := ht
  rw [Codec.decodeFrom, ← hafter, List.cons_append, List.append_assoc, List.singleton_append,
    Codec.ofLines.eq_3 _ _ _ _ hne, run_append_of_step hrun hstep]
  rfl

end ParserState

open ParserState Mark in
/-- An elision is one or more tabs, dots, digits and the last word, with nothing else, and its count
is what the digits state, or the greatest number of 32 bits where that is larger. At the root it is
refused. Of a failure that hangs off one with fewer frames than this number, it stands for as many
of the last frames of the latter as it asks for, and it is refused with its count if there are not
as many. -/
theorem elision_counted {capture? : Text → Option Text}
    (hcapture : elisionPattern.FoundBy capture?) :
    (∀ t count, elisionCount? capture? t = some count ↔
      ∃ n, AsksFor t n ∧ count.toNat = min n (2 ^ 32 - 1)) ∧
    (∀ t, elisionCount? capture? t = none ↔ ∀ n, ¬ AsksFor t n) ∧
    (∀ t, elided? t = (elisionCount? capture? t).map UInt32.toNat) ∧
    ∀ (codec : Codec) (first : Nat) (header : Text) (before : List Text) (s : ParserState)
      (line rest : Text) (n : Nat), header ≠ [] →
      run codec 1 before ⟨.ofHeader codec 0 .root first header, [], first + 1⟩ = .ok s →
      s.current.phase.takesFrames = true → line = indent s.current.depth ++ rest → AsksFor rest n →
        (s.parents = [] → ∀ t : Text, header :: (before ++ [line]) <+: t.lines →
          codec.decodeFrom first t =
            .error (.danglingElision (before.length + 1) (min n (2 ^ 32 - 1)))) ∧
        ∀ parent outer, s.parents = parent :: outer → parent.node.frames.length < 2 ^ 32 - 1 →
          (n ≤ parent.node.frames.length →
            run codec 1 (before ++ [line]) ⟨.ofHeader codec 0 .root first header, [], first + 1⟩ =
              .ok { s with
                current := s.current.addFrames (parent.node.frames.rtake n) .relations } ∧
            ∀ (t : Text) (g : Failure Nat), header :: (before ++ [line]) <+: t.lines →
              codec.decodeFrom first t = .ok g →
                g.HasFrames parent.node.id parent.node.frames ∧
                g.HasFrames s.current.node.id
                  (s.current.node.frames ++ parent.node.frames.rtake n)) ∧
          (parent.node.frames.length < n → ∀ t : Text, header :: (before ++ [line]) <+: t.lines →
            codec.decodeFrom first t =
              .error (.danglingElision (before.length + 1) (min n (2 ^ 32 - 1)))) := by
  refine ⟨fun t count => elisionCount?_eq_some_iff hcapture,
    fun t => elisionCount?_eq_none_iff hcapture, elided?_eq_elisionCount? hcapture, ?_⟩
  intro codec first header before s line rest n hne hrun hphase hline hasks
  have hstep : s.step codec (1 + before.length) line =
      s.expand (before.length + 1) (min n maxElided) := by
    rw [hline, step_of_asksFor hphase hasks, Nat.add_comm]
  refine ⟨?_, ?_⟩
  · intro hparents t ht
    refine decodeFrom_of_step hne hrun ?_ ht
    rw [hstep, expand, hparents]
    rfl
  · intro parent outer hparents hlt
    refine ⟨?_, ?_⟩
    · intro hle
      have hmin : min n maxElided = n := Nat.min_eq_left (Nat.le_trans hle (Nat.le_of_lt hlt))
      have hrun' : run codec 1 (before ++ [line])
          ⟨.ofHeader codec 0 .root first header, [], first + 1⟩ =
            .ok { s with current := s.current.addFrames (parent.node.frames.rtake n) .relations } := by
        rw [run_append, hrun, Except.bind, run, hstep, hmin, expand, hparents]
        simp only [if_pos hle]
        rfl
      refine ⟨hrun', fun t g ht hg => ?_⟩
      obtain ⟨after, hafter⟩ := ht
      rw [Codec.decodeFrom, ← hafter, List.cons_append] at hg
      refine ⟨hasFrames_of_run hg hrun' (.inl ?_), hasFrames_of_run hg hrun' (.inr ⟨rfl, ?_⟩)⟩
      · exact ⟨parent, by simp [hparents], Failure.hasFrames_iff.2 (.inl ⟨rfl, rfl⟩)⟩
      · exact Failure.hasFrames_iff.2 (.inl ⟨rfl, rfl⟩)
    · intro hmore t ht
      refine decodeFrom_of_step hne hrun ?_ ht
      have hcount : ¬ min n maxElided ≤ parent.node.frames.length :=
        Nat.not_le.2 (Nat.lt_min.2 ⟨hmore, hlt⟩)
      rw [hstep, expand, hparents]
      exact if_neg hcount

/-- A suppressed failure with a message of two lines that asks for frames of the one above it. -/
def asking (digits : Text) : Text :=
  Text.ofRows ['\n'] ["A: x".toList, "\tat p.Q.run(S.java:3)".toList,
    "\tat p.Q.main(Native Method)".toList, "\tSuppressed: B: y".toList, "z".toList,
    "\t\tat p.q(Native Method)".toList, "\t\t\t... ".toList ++ digits ++ " more".toList,
    "Caused by: C".toList]

open ParserState Mark in
theorem elision_counted_asking :
    let native : Frame := ⟨['p'], ['q'], none, .native⟩
    let running : Frame := ⟨"p.Q".toList, "run".toList, some "S.java".toList, .number 3⟩
    let main : Frame := ⟨"p.Q".toList, "main".toList, none, .native⟩
    elisionCount? elisionDigits? "\t\t... 0004294967296 more".toList = some 4294967295 ∧
    (∃ g, Codec.decodeFrom {} 0 (asking "0002".toList) = .ok g ∧
      g.HasFrames 1 [native, running, main]) ∧
    Codec.decodeFrom {} 0 (asking "4294967296".toList) = .error (.danglingElision 6 4294967295) ∧
    Codec.decodeFrom {} 0 "A\n\t... 0 more".toList = .error (.danglingElision 1 0) := by
  intro native running main
  obtain ⟨hcount, -, -, hread⟩ := elision_counted foundBy_elisionDigits?
  obtain ⟨s, parent, outer, hrun, hphase, hdepth, hparents, hid, hown, hframes⟩ :
      ∃ (s : ParserState) (parent : OpenFailure) (outer : List OpenFailure),
        run {} 1 ["\tat p.Q.run(S.java:3)".toList, "\tat p.Q.main(Native Method)".toList,
          "\tSuppressed: B: y".toList, "z".toList, "\t\tat p.q(Native Method)".toList]
            ⟨.ofHeader {} 0 .root 0 "A: x".toList, [], 0 + 1⟩ = .ok s ∧
        s.current.phase.takesFrames = true ∧ s.current.depth = 1 ∧ s.parents = parent :: outer ∧
        s.current.node.id = 1 ∧ s.current.node.frames = [native] ∧
        parent.node.frames = [running, main] :=
    ⟨_, _, _, rfl, rfl, rfl, rfl, rfl, rfl, rfl⟩
  have hlt : parent.node.frames.length < 2 ^ 32 - 1 := by
    rw [hframes]
    decide
  have hasked (digits : Text) (n : Nat) (hn : Text.toNat? digits = some n) :=
    (hread {} 0 _ _ s ("\t\t\t... ".toList ++ digits ++ " more".toList) _ n (by decide) hrun hphase
      (by rw [hdepth]; rfl) ⟨1, digits, rfl, Text.toNat?_eq_some_iff.1 hn⟩).2 parent outer hparents hlt
  refine ⟨?_, ?_, ?_, ?_⟩
  · refine (hcount _ _).2 ⟨4294967296, ⟨1, "0004294967296".toList, rfl, ?_⟩, by decide⟩
    exact Text.toNat?_eq_some_iff.1 rfl
  · obtain ⟨-, hexpanded⟩ := (hasked "0002".toList 2 rfl).1 (by rw [hframes]; decide)
    obtain ⟨g, hg⟩ : ∃ g, Codec.decodeFrom {} 0 (asking "0002".toList) = .ok g := ⟨_, rfl⟩
    obtain ⟨-, hgraph⟩ := hexpanded _ g ⟨["Caused by: C".toList], rfl⟩ hg
    rw [hid, hown, hframes] at hgraph
    exact ⟨g, hg, hgraph⟩
  · exact (hasked "4294967296".toList 4294967296 rfl).2 (by rw [hframes]; decide) _
      ⟨["Caused by: C".toList], rfl⟩
  · exact (hread {} 0 ['A'] [] _ "\t... 0 more".toList _ 0 (by decide) rfl rfl rfl
      ⟨0, ['0'], rfl, Text.toNat?_eq_some_iff.1 rfl⟩).1 rfl _ ⟨[], rfl⟩

end Stacktrace
