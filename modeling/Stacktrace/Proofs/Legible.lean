import Stacktrace.Proofs.Lineage
import Stacktrace.Proofs.RowSteps

/-!
# Failures that can be read again

A failure is legible when the rows that it is written as say no more and no less than it holds: its
type is parted from its message where it ends, no later line of the message looks like a row, and
its frames are read as they were. The header of a legible failure and the lines after it are read
as the failure without all that hangs off it.
-/

namespace Stacktrace
variable {ι : Type}

/-! ## Frames without line ends -/

def Frame.Plain (f : Frame) : Prop :=
  Text.Plain f.unit ∧ Text.Plain f.operation ∧ ∀ label ∈ f.label, Text.Plain label

instance (f : Frame) : Decidable f.Plain := inferInstanceAs (Decidable (_ ∧ _))

theorem Text.plain_ofNat (n : Nat) : Text.Plain (Text.ofNat n) := by
  have hdigit (c : Char) (hc : c ∈ Text.ofNat n) : c.isDigit = true :=
    Nat.isDigit_of_mem_toDigits (by decide) (by decide) hc
  exact ⟨fun h => absurd (hdigit _ h) (by decide), fun h => absurd (hdigit _ h) (by decide)⟩

theorem Text.plain_ofInt (n : Int) : Text.Plain (Text.ofInt n) := by
  cases n with
  | ofNat n => exact Text.plain_ofNat n
  | negSucc n =>
    rw [Text.ofInt, ← List.singleton_append, Text.plain_append]
    exact ⟨by decide, Text.plain_ofNat (n + 1)⟩

theorem Frame.plain_location {label : Option Text} (h : ∀ text ∈ label, Text.Plain text)
    (line : LineNumber) : Text.Plain (Frame.location label line) := by
  have hnative : Text.Plain Frame.nativeMethod := by decide
  have hunknown : Text.Plain Frame.unknownSource := by decide
  cases label with
  | none => cases line <;> assumption
  | some label =>
    have hlabel := h label rfl
    cases line with
    | number n =>
      rw [Frame.location, ← List.singleton_append, Text.plain_append, Text.plain_append]
      exact ⟨hlabel, by decide, Text.plain_ofInt _⟩
    | native => exact hnative
    | unavailable => exact hlabel

theorem Frame.plain_render {f : Frame} (h : f.Plain) : Text.Plain f.render := by
  have hlocation := Frame.plain_location h.2.2 f.line
  have hparts : f.render = f.unit ++ ['.'] ++ f.operation ++ ['('] ++ Frame.location f.label f.line ++
      [')'] := by
    simp [Frame.render, Frame.qualified]
  rw [hparts]
  simp only [Text.plain_append]
  exact ⟨⟨⟨⟨⟨h.1, by decide⟩, h.2.1⟩, by decide⟩, hlocation⟩, by decide⟩

/-! ## Type and message -/

namespace Text

theorem includes_cons_eq_false {c : Char} {t piece : Text} :
    includes (c :: t) piece = false ↔ startsWith (c :: t) piece = false ∧ includes t piece = false := by
  rw [includes, Bool.or_eq_false_iff]

theorem cut?_eq_none {t token : Text} (h : t.includes token = false) : t.cut? token = none := by
  induction t with
  | nil => rfl
  | cons c t ih =>
    obtain ⟨hstart, hrest⟩ := includes_cons_eq_false.1 h
    have hafter : after? (c :: t) token = none := by
      simpa [startsWith] using hstart
    rw [cut?, hafter, ih hrest]
    rfl

theorem cut?_append {t : Text} (h : t.includes ": ".toList = false) (rest : Text) :
    (t ++ ": ".toList ++ rest).cut? ": ".toList = some (t, rest) := by
  have htoken : ": ".toList = [':', ' '] := rfl
  rw [htoken] at h ⊢
  induction t with
  | nil => cases rest <;> rfl
  | cons c t ih =>
    obtain ⟨hstart, hrest⟩ := includes_cons_eq_false.1 h
    have hafter : after? (c :: (t ++ [':', ' '] ++ rest)) [':', ' '] = none := by
      cases t with
      | nil => by_cases hc : c = ':' <;> simp [after?, hc]
      | cons d t =>
        have hstart : after? (c :: d :: t) [':', ' '] = none := by simpa [startsWith] using hstart
        by_cases hc : c = ':' <;> by_cases hd : d = ' ' <;> simp_all [after?]
    rw [List.cons_append, List.cons_append, cut?, hafter]
    simp only [ih hrest]
    rfl

end Text

/-- Whether a failure at a depth is written so that it can be read again. -/
structure Failure.Legible (codec : Codec) (depth : Nat) (f : Failure ι) : Prop where
  origin : f.origin = .resolved ∧ codec.resolver.resolves f.typeName = true ∧
      (codec.config.indicator ≠ [] → f.typeName.startsWith codec.config.indicator = false) ∨
    f.origin = .surrogate codec.config.indicator ∧ codec.resolver.resolves f.typeName = false
  type_plain : f.displayType.Plain
  type_whole : f.displayType.includes ": ".toList = false
  message : ∀ text ∈ f.message, ∃ (first : Text) (more : List Text),
    text = codec.config.terminator.intercalate (first :: more) ∧
      (∀ line ∈ first :: more, Text.Plain line) ∧ ∀ line ∈ more, Mark.endsMessage depth line = false
  frames : ∀ frame ∈ f.frames, frame.Plain ∧ Frame.read frame.render = .ok frame

/-- A failure that is being read, as far as its header and its message say what it is. -/
def Failure.opened (depth : Nat) (relation : Relation) (id : Nat) (f : Failure ι) : OpenFailure :=
  ⟨⟨depth, relation, { Failure.ofType id f.typeName with message := f.message, origin := f.origin }⟩,
    .message⟩

namespace Failure.Legible
variable {codec : Codec} {depth : Nat} {f : Failure ι}

theorem splitHeader_displayType (h : f.Legible codec depth) :
    OpenFailure.splitHeader f.displayType = (f.displayType, none) := by
  rw [OpenFailure.splitHeader, Text.cut?_eq_none h.type_whole]

theorem splitHeader_append (h : f.Legible codec depth) (message : Text) :
    OpenFailure.splitHeader (f.displayType ++ ": ".toList ++ message) =
      (f.displayType, some message) := by
  rw [OpenFailure.splitHeader, Text.cut?_append h.type_whole]

theorem node_ofHeader (h : f.Legible codec depth) {header : Text} {message : Option Text}
    (hsplit : OpenFailure.splitHeader header = (f.displayType, message)) (relation : Relation)
    (id : Nat) : (OpenFailure.ofHeader codec depth relation id header).node =
      { Failure.ofType id f.typeName with message, origin := f.origin } := by
  rcases h.origin with ⟨horigin, hresolves, hindicator⟩ | ⟨horigin, hresolves⟩
  · have htype : f.displayType = f.typeName := by rw [displayType, horigin]
    have hname : (f.displayType.after? codec.config.indicator).getD f.displayType = f.typeName := by
      rw [htype]
      by_cases hempty : codec.config.indicator = []
      · rw [hempty, Text.after?_eq_some_iff.2 (List.nil_append f.typeName).symm, Option.getD_some]
      · have hnone : f.typeName.after? codec.config.indicator = none := by
          simpa [Text.startsWith] using hindicator hempty
        rw [hnone, Option.getD_none]
    rw [OpenFailure.node_ofHeader codec depth relation id hsplit hname, if_pos hresolves, horigin]
  · have hname : (f.displayType.after? codec.config.indicator).getD f.displayType = f.typeName := by
      rw [displayType, horigin, Text.after?_append, Option.getD_some]
    rw [OpenFailure.node_ofHeader codec depth relation id hsplit hname, horigin, hresolves]
    rfl

/-- The header of a legible failure, the further lines of its message, and how they are read. -/
theorem exists_header (h : f.Legible codec depth) : ∃ (header : Text) (more : List Text),
    (∀ line ∈ header :: more, Text.Plain line) ∧ (header = [] → f.displayText = []) ∧
    f.displayText = Text.joined codec.config.terminator header more ∧
    ∀ (relation : Relation) (id : Nat) (outer : List OpenFailure) (line next : Nat),
      ParserState.run codec line more ⟨.ofHeader codec depth relation id header, outer, next⟩ =
        .ok ⟨f.opened depth relation id, outer, next⟩ := by
  have hopen (relation : Relation) (id : Nat) (header : Text) :
      OpenFailure.ofHeader codec depth relation id header =
        ⟨⟨depth, relation, (OpenFailure.ofHeader codec depth relation id header).node⟩, .message⟩ := rfl
  cases hmessage : f.message with
  | none =>
    have hdisplay : f.displayText = f.displayType := by rw [displayText, hmessage]
    refine ⟨f.displayType, [], ?_, hdisplay.trans, hdisplay, ?_⟩
    · simpa using h.type_plain
    · intro relation id outer line next
      rw [hopen, h.node_ofHeader h.splitHeader_displayType, ParserState.run, opened, hmessage]
  | some message =>
    obtain ⟨first, more, hjoined, hplain, hmore⟩ := h.message message hmessage
    rw [Text.intercalate_cons_eq_joined] at hjoined
    obtain ⟨hfirst, hlines⟩ := List.forall_mem_cons.1 hplain
    refine ⟨f.displayType ++ ": ".toList ++ first, more, ?_, ?_, ?_,
      fun relation id outer line next => ?_⟩
    · refine List.forall_mem_cons.2 ⟨?_, hlines⟩
      exact Text.plain_append.2 ⟨Text.plain_append.2 ⟨h.type_plain, by decide⟩, hfirst⟩
    · intro hnil
      simp at hnil
    · rw [displayText, hmessage, hjoined]
      exact Text.append_joined _ _ _ _
    · rw [hopen, h.node_ofHeader (h.splitHeader_append first),
        ParserState.run_goOn rfl rfl hmore, opened, hmessage, hjoined]
      rfl

theorem joined_displayText (h : f.Legible codec depth) :
    Text.Joined codec.config.terminator f.displayText := by
  obtain ⟨header, more, hplain, -, hdisplay, -⟩ := h.exists_header
  exact ⟨header, more, hplain, hdisplay⟩

theorem plain_frameRow (h : f.Legible codec depth) {frame : Frame} (hframe : frame ∈ f.frames) :
    Text.Plain (frameRow depth frame) := by
  have hrender := Frame.plain_render (h.frames frame hframe).1
  refine Mark.plain_indent_append depth ?_
  rw [← List.cons_append]
  exact Text.plain_append.2 ⟨by decide, hrender⟩

end Failure.Legible
end Stacktrace
