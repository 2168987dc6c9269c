import Stacktrace.Proofs.Legible
import Stacktrace.Proofs.Origins
import Stacktrace.Proofs.Reprint

/-!
# Surrogates that are read again

A header is cut at its first separator, and only then is the indicator taken off the type. As the
indicator stands in front of the type with nothing between them, a surrogate is read again as what it
was exactly when there is no separator in the two together (`surrogate_reread_iff`). What stands in front
of one in the indicator is read as the type (`decode_misread`).
-/

namespace Stacktrace

/-! ## Headers -/

namespace Text

theorem includes_eq_false_of_cut?_eq_none {t token : Text} (htoken : token ≠ [])
    (h : t.cut? token = none) : t.includes token = false := by
  induction t with
  | nil => simpa [includes] using htoken
  | cons c t ih =>
    rw [cut?] at h
    split at h
    · simp at h
    · next hafter =>
      rw [Option.map_eq_none_iff] at h
      rw [includes_cons_eq_false, startsWith, hafter]
      exact ⟨rfl, ih h⟩

/-- The part before the first occurrence of a token holds none. -/
theorem includes_eq_false_of_cut? {t token a b : Text} (htoken : token ≠ [])
    (h : t.cut? token = some (a, b)) : a.includes token = false := by
  induction t generalizing a with
  | nil => simp [cut?] at h
  | cons c t ih =>
    rw [cut?] at h
    split at h
    · next rest hafter =>
      obtain ⟨rfl, rfl⟩ := Prod.mk.inj (Option.some.inj h)
      simpa [includes] using htoken
    · next hafter =>
      obtain ⟨⟨a, b⟩, hparts, heq⟩ := Option.map_eq_some_iff.1 h
      obtain ⟨rfl, rfl⟩ := Prod.mk.inj heq
      refine includes_cons_eq_false.2 ⟨?_, ih hparts⟩
      -- a token at the front of the part would be one at the front of the whole
      by_contra hstart
      obtain ⟨r, hr⟩ := startsWith_iff.1 (Bool.not_eq_false _ ▸ hstart)
      have hwhole : c :: t = token ++ (r ++ token ++ b) := by
        rw [eq_append_of_cut? hparts, ← List.append_assoc, ← List.append_assoc, ← hr]
        simp
      rw [hwhole, after?_append] at hafter
      cases hafter

end Text

/-- The header that a type and a message are written as. -/
def joinHeader (shown : Text) : Option Text → Text
  | none => shown
  | some message => shown ++ ": ".toList ++ message

theorem Failure.displayText_eq_joinHeader {ι : Type} (f : Failure ι) :
    f.displayText = joinHeader f.displayType f.message := by
  rw [displayText]
  cases f.message <;> rfl

theorem joinHeader_inj {shown other : Text} {message : Option Text} :
    joinHeader shown message = joinHeader other message ↔ shown = other := by
  cases message <;> simp [joinHeader]

theorem plain_joinHeader {shown : Text} {message : Option Text} :
    (joinHeader shown message).Plain ↔ shown.Plain ∧ ∀ text ∈ message, Text.Plain text := by
  cases message with
  | none => simp [joinHeader]
  | some message =>
    have hseparator : Text.Plain ": ".toList := by decide
    simp only [joinHeader, Text.plain_append, hseparator, Option.mem_some_iff, forall_eq', and_true]

/-- Splitting undoes joining when there is no separator in the type, and only then. -/
theorem splitHeader_eq_iff {header shown : Text} {message : Option Text} :
    OpenFailure.splitHeader header = (shown, message) ↔
      shown.includes ": ".toList = false ∧ header = joinHeader shown message := by
  have htoken : ": ".toList ≠ [] := by decide
  constructor
  · intro h
    cases hcut : header.cut? ": ".toList with
    | none =>
      rw [OpenFailure.splitHeader, hcut] at h
      obtain ⟨rfl, rfl⟩ := Prod.mk.inj h
      exact ⟨Text.includes_eq_false_of_cut?_eq_none htoken hcut, rfl⟩
    | some parts =>
      rw [OpenFailure.splitHeader, hcut] at h
      obtain ⟨rfl, rfl⟩ := Prod.mk.inj h
      exact ⟨Text.includes_eq_false_of_cut? htoken hcut, Text.eq_append_of_cut? hcut⟩
  · rintro ⟨hwhole, rfl⟩
    cases message with
    | none => rw [joinHeader, OpenFailure.splitHeader, Text.cut?_eq_none hwhole]
    | some message => rw [joinHeader, OpenFailure.splitHeader, Text.cut?_append hwhole]

/-! ## Texts of one line -/

theorem lines_of_plain {t header : Text} (hheader : header.Plain)
    (ht : t = header ∨ t = header ++ ['\n']) : t.lines = [header] := by
  rcases ht with rfl | rfl
  · have hlast : t.getLast? ≠ some '\n' := fun hlast => hheader.2 (List.mem_of_getLast? hlast)
    rw [Text.lines, if_neg hlast]
    exact Text.pieces_of_plain hheader
  · rw [Text.lines_append_lineFeed hheader.2, if_pos rfl, Text.dropReturn_of_plain hheader]

theorem Codec.decodeFrom_of_plain {codec : Codec} {t header : Text} (hheader : header.Plain)
    (hne : header ≠ []) (ht : t = header ∨ t = header ++ ['\n']) (first : Nat) :
    codec.decodeFrom first t = .ok (OpenFailure.ofHeader codec 0 .root first header).node := by
  rw [decodeFrom, lines_of_plain hheader ht, ofLines.eq_3 _ _ _ _ hne]
  rfl

theorem Codec.encode_of_bare {codec : Codec} {f : Failure Nat} (hframes : f.frames = [])
    (hsuppressed : f.suppressed = []) (hcause : f.cause = .none) :
    codec.encode f = f.displayText ++ codec.config.terminator := by
  rw [encode, Failure.print_eq_ofRows, Failure.rows,
    OpenFailure.bodyRows_of_bare 0 hsuppressed hcause, hframes]
  simp

/-- The surrogate of a type and a message. -/
def surrogate (indicator : Text) (id : Nat) (typeName : Text) (message : Option Text) :
    Failure Nat :=
  { Failure.ofType id typeName with message, origin := .surrogate indicator }

theorem displayText_surrogate (indicator : Text) (id : Nat) (typeName : Text)
    (message : Option Text) : (surrogate indicator id typeName message).displayText =
      joinHeader (indicator ++ typeName) message :=
  (surrogate indicator id typeName message).displayText_eq_joinHeader

/-- What a text of one line is read as when that is a surrogate. -/
theorem exists_surrogate_of_decodeFrom {codec : Codec} {t header : Text} (hheader : header.Plain)
    (ht : t = header ∨ t = header ++ ['\n']) {first : Nat} {s : Failure Nat}
    (h : codec.decodeFrom first t = .ok s) (hs : s.isSurrogate = true) :
    ∃ typeName message, s = surrogate codec.config.indicator first typeName message ∧
      codec.resolver.resolves typeName = false ∧
      typeName.Plain ∧ ∀ text ∈ message, Text.Plain text := by
  have hheaderNe : header ≠ [] := by
    rintro rfl
    rw [Codec.decodeFrom, lines_of_plain hheader ht, Codec.ofLines] at h
    cases h
  rw [Codec.decodeFrom_of_plain hheader hheaderNe ht, Except.ok.injEq] at h
  obtain ⟨shown, message, hsplit⟩ : ∃ shown message,
      OpenFailure.splitHeader header = (shown, message) := ⟨_, _, rfl⟩
  rw [OpenFailure.node_ofHeader codec 0 .root first hsplit rfl] at h
  subst h
  have hunknown : codec.resolver.resolves
      ((shown.after? codec.config.indicator).getD shown) = false := by
    by_contra hknown
    simp [Failure.isSurrogate, hknown] at hs
  rw [(splitHeader_eq_iff.1 hsplit).2, plain_joinHeader] at hheader
  refine ⟨_, message, by rw [hunknown]; rfl, hunknown, ?_, hheader.2⟩
  cases hafter : shown.after? codec.config.indicator with
  | none => exact hheader.1
  | some typeName =>
    rw [Text.after?_eq_some_iff] at hafter
    rw [hafter, Text.plain_append] at hheader
    exact hheader.1.2

/-- A surrogate that a text of one line is read as is written as a text that is read as the same
surrogate if there is no separator in its indicator and its type together, and only then. -/
theorem surrogate_reread_iff {indicator header t : Text} {resolver : Resolver} {first : Nat}
    {s : Failure Nat} (hne : indicator ≠ []) (hindicator : indicator.Plain)
    (hheader : header.Plain) (ht : t = header ∨ t = header ++ ['\n'])
    (h : Codec.decodeFrom ⟨⟨['\n'], indicator⟩, resolver⟩ first t = .ok s)
    (hs : s.isSurrogate = true) (again : Nat) :
    (∃ s', Codec.decodeFrom ⟨⟨['\n'], indicator⟩, resolver⟩ again
        (Codec.encode ⟨⟨['\n'], indicator⟩, resolver⟩ s) = .ok s' ∧
      s'.typeName = s.typeName ∧ s'.message = s.message ∧ s'.origin = .surrogate indicator) ↔
      (indicator ++ s.typeName).includes ": ".toList = false := by
  obtain ⟨typeName, message, rfl, hunknown, htype, hmessage⟩ :=
    exists_surrogate_of_decodeFrom hheader ht h hs
  have hwritten : (joinHeader (indicator ++ typeName) message).Plain :=
    plain_joinHeader.2 ⟨Text.plain_append.2 ⟨hindicator, htype⟩, hmessage⟩
  have hwrittenNe : joinHeader (indicator ++ typeName) message ≠ [] := by
    cases message <;> simp [joinHeader, hne]
  obtain ⟨shown, found, hsplit⟩ : ∃ shown found,
      OpenFailure.splitHeader (joinHeader (indicator ++ typeName) message) = (shown, found) :=
    ⟨_, _, rfl⟩
  rw [Codec.encode_of_bare rfl rfl rfl, displayText_surrogate,
    Codec.decodeFrom_of_plain hwritten hwrittenNe (.inr rfl)]
  constructor
  · rintro ⟨s', hread, -, hsame, -⟩
    rw [OpenFailure.node_ofHeader _ 0 .root again hsplit rfl, Except.ok.injEq] at hread
    subst hread
    obtain rfl : found = message := hsame
    obtain ⟨hwhole, hjoined⟩ := splitHeader_eq_iff.1 hsplit
    rw [joinHeader_inj] at hjoined
    exact hjoined ▸ hwhole
  · intro hwhole
    have hname : ((indicator ++ typeName).after? indicator).getD (indicator ++ typeName) =
        typeName := by
      rw [Text.after?_append, Option.getD_some]
    refine ⟨_, rfl, ?_⟩
    have hundone : OpenFailure.splitHeader (joinHeader (indicator ++ typeName) message) =
        (indicator ++ typeName, message) := splitHeader_eq_iff.2 ⟨hwhole, rfl⟩
    rw [OpenFailure.node_ofHeader _ 0 .root again hundone hname]
    exact ⟨rfl, rfl, if_neg (by simpa using hunknown)⟩

/-! Colons on both sides of the place where the indicator ends, and an indicator twice. -/

theorem surrogate_reread_colons :
    let codec : Codec := ⟨⟨['\n'], "?:".toList⟩, .known .empty⟩
    let s := surrogate "?:".toList 3 "?::B:".toList (some "m: n".toList)
    codec.decodeFrom 3 "?:?::B:: m: n\n".toList = .ok s ∧
      ∃ s', codec.decodeFrom 5 (codec.encode s) = .ok s' ∧
        s'.typeName = s.typeName ∧ s'.message = s.message ∧ s'.origin = .surrogate "?:".toList := by
  intro codec s
  have h : codec.decodeFrom 3 "?:?::B:: m: n\n".toList = .ok s := rfl
  have hheader : Text.Plain "?:?::B:: m: n".toList := by decide
  refine ⟨h, (surrogate_reread_iff (by decide) (by decide) hheader (.inr rfl) h rfl 5).2 ?_⟩
  decide

/-! An indicator with a separator in it. -/

def partedCodec : Codec := ⟨⟨['\n'], "[lib: x] ".toList⟩, .known .empty⟩

def boom : Failure Nat := surrogate partedCodec.config.indicator 0 "app.E".toList (some "boom".toList)

def misread : Failure Nat :=
  surrogate partedCodec.config.indicator 0 "[lib".toList (some "x] app.E: boom".toList)

theorem decode_misread : partedCodec.decode "app.E: boom".toList = .ok boom ∧
    boom.isSurrogate = true ∧ partedCodec.decode (partedCodec.encode boom) = .ok misread ∧
      misread.typeName ≠ boom.typeName ∧ misread.message ≠ boom.message :=
  ⟨rfl, rfl, rfl, by decide, by decide⟩

end Stacktrace
