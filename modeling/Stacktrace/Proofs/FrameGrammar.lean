import Stacktrace.Frame.Reader
import Stacktrace.Proofs.Numerals

/-!
# The grammar of frames

`Grammar` says of every text which frame it is, or why it is none, by where parentheses, dots and
colons stand in it. The reader scans a text for these and agrees with the grammar
(`readAt_iff_grammar`), so long as no colon follows the last closing parenthesis: such a colon is
not part of the frame and still keeps the reader from finding a line number.
-/

namespace Stacktrace

namespace Text

/-- Whether a text goes on as `rest` from a byte offset on. -/
def RestAt (t : Text) (start : Nat) (rest : Text) : Prop :=
  ∃ before, t = before ++ rest ∧ byteSize before = start

theorem dropBytes?_eq_some_iff {t rest : Text} {start : Nat} :
    t.dropBytes? start = some rest ↔ t.RestAt start rest := by
  constructor
  · intro h
    fun_induction dropBytes? t start with
    | case1 t => exact ⟨[], Option.some.inj h, rfl⟩
    | case2 n => cases h
    | case3 c t n hle ih =>
      obtain ⟨before, rfl, hsize⟩ := ih h
      refine ⟨c :: before, rfl, ?_⟩
      rw [byteSize, hsize, Nat.add_sub_cancel' hle]
    | case4 c t n hle => cases h
  · rintro ⟨before, rfl, rfl⟩
    exact dropBytes?_append before rest

theorem cut?_singleton_eq_none_iff {t : Text} {sep : Char} : t.cut? [sep] = none ↔ sep ∉ t := by
  induction t with
  | nil => simp [cut?]
  | cons c t ih =>
    by_cases hc : c = sep
    · simp [cut?, after?, hc]
    · simp [cut?, after?, hc, Ne.symm hc, ih]

theorem cut?_singleton_eq_some_iff {t a b : Text} {sep : Char} :
    t.cut? [sep] = some (a, b) ↔ t = a ++ sep :: b ∧ sep ∉ a := by
  induction t generalizing a with
  | nil => simp [cut?]
  | cons c t ih =>
    by_cases hc : c = sep
    · have hcut : cut? (c :: t) [sep] = some ([], t) := by simp [cut?, after?, hc]
      rw [hcut]
      cases a with
      | nil => simp [hc]
      | cons d a => simp +contextual [hc]
    · have hcut : cut? (c :: t) [sep] =
          (cut? t [sep]).map fun parts => (c :: parts.1, parts.2) := by
        simp [cut?, after?, hc]
      rw [hcut, Option.map_eq_some_iff]
      cases a with
      | nil => simp [hc]
      | cons d a =>
        constructor
        · rintro ⟨⟨a', b'⟩, hparts, heq⟩
          obtain ⟨⟨rfl, rfl⟩, rfl⟩ : (c = d ∧ a' = a) ∧ b' = b := by simpa using heq
          obtain ⟨rfl, hmem⟩ := ih.1 hparts
          exact ⟨rfl, by simp [Ne.symm hc, hmem]⟩
        · rintro ⟨heq, hmem⟩
          obtain ⟨rfl, rfl⟩ := List.cons.inj heq
          exact ⟨(a, b), ih.2 ⟨rfl, fun h => hmem (List.mem_cons_of_mem _ h)⟩, rfl⟩

end Text

namespace LineNumber

theorem ofInt?_toInt (n : Int32) : ofInt? n.toInt = some (.number n) := by
  rw [ofInt?, if_pos, Int32.ofInt_toInt]
  have hle := n.le_toInt
  have hlt := n.toInt_lt
  omega

theorem ofInt?_eq_some_iff {n : Int} {line : LineNumber} :
    ofInt? n = some line ↔ ∃ m : Int32, m.toInt = n ∧ line = .number m := by
  constructor
  · intro h
    rw [ofInt?, Option.ite_none_right_eq_some] at h
    exact ⟨_, Int32.toInt_ofInt_of_le h.1.1 (by omega), (Option.some.inj h.2).symm⟩
  · rintro ⟨m, rfl, rfl⟩
    exact ofInt?_toInt m

end LineNumber

namespace Frame

/-! ## Locations -/

/-- Whether no line number follows the last colon of a location. -/
def Unnumbered (location : Text) : Prop :=
  ∀ label digits, location = label ++ ':' :: digits → ':' ∉ digits →
    ∀ n : Int32, ¬ Text.Numeral digits n.toInt

/-- The label and the line that a location states. A line number stands behind the last colon. -/
inductive Locates : Text → Option Text → LineNumber → Prop
  | native : Locates nativeMethod none .native
  | unknown : Locates unknownSource none .unavailable
  | numbered {label digits : Text} {n : Int32} (colon : ':' ∉ digits)
      (number : Text.Numeral digits n.toInt) :
      Locates (label ++ ':' :: digits) (some label) (.number n)
  | plain {location : Text} (native : location ≠ nativeMethod) (unknown : location ≠ unknownSource)
      (number : Unnumbered location) : Locates location (some location) .unavailable

/-- The labels and lines that the location written for them states. -/
inductive Faithful : Option Text → LineNumber → Prop
  | native : Faithful none .native
  | unknown : Faithful none .unavailable
  | numbered (label : Text) (n : Int32) : Faithful (some label) (.number n)
  | plain {label : Text} (native : label ≠ "Native Method".toList)
      (unknown : label ≠ "Unknown Source".toList) (number : Unnumbered label) :
      Faithful (some label) .unavailable

theorem Locates.faithful {place : Text} {label : Option Text} {line : LineNumber}
    (h : Locates place label line) : Faithful label line := by
  cases h with
  | native => exact .native
  | unknown => exact .unknown
  | numbered => exact .numbered _ _
  | plain hnative hunknown hnumber => exact .plain hnative hunknown hnumber

theorem Faithful.locates {label : Option Text} {line : LineNumber} (h : Faithful label line) :
    Locates (location label line) label line := by
  cases h with
  | native => exact .native
  | unknown => exact .unknown
  | numbered label n => exact .numbered (Text.colon_not_mem_ofInt _) (Text.numeral_ofInt _)
  | plain hnative hunknown hnumber => exact .plain hnative hunknown hnumber

theorem numbered?_eq_some_iff {location label : Text} {line : LineNumber} :
    numbered? location = some (label, line) ↔ ∃ digits, ∃ n : Int32,
      location = label ++ ':' :: digits ∧ ':' ∉ digits ∧ Text.Numeral digits n.toInt ∧
        line = .number n := by
  constructor
  · intro h
    rw [numbered?] at h
    split at h
    · cases h
    · next found digits hcut =>
      obtain ⟨rfl, hcolon⟩ := Text.cutLast?_eq_some_iff.1 hcut
      obtain ⟨number, hnumber, heq⟩ := Option.map_eq_some_iff.1 h
      obtain ⟨rfl, rfl⟩ := Prod.mk.inj heq
      obtain ⟨value, hvalue, hline⟩ := Option.bind_eq_some_iff.1 hnumber
      obtain ⟨n, rfl, rfl⟩ := LineNumber.ofInt?_eq_some_iff.1 hline
      exact ⟨digits, n, rfl, hcolon, Text.toInt?_eq_some_iff.1 hvalue, rfl⟩
  · rintro ⟨digits, n, rfl, hcolon, hnumeral, rfl⟩
    rw [numbered?, Text.cutLast?_eq_some_iff.2 ⟨rfl, hcolon⟩]
    simp only [Text.toInt?_eq_some_iff.2 hnumeral, Option.bind_some, LineNumber.ofInt?_toInt,
      Option.map_some]

theorem numbered?_eq_none_iff {location : Text} :
    numbered? location = none ↔ Unnumbered location := by
  rw [Option.eq_none_iff_forall_ne_some]
  constructor
  · intro h label digits heq hcolon n hnumeral
    exact h (label, .number n) (numbered?_eq_some_iff.2 ⟨digits, n, heq, hcolon, hnumeral, rfl⟩)
  · rintro h ⟨label, line⟩ hsome
    obtain ⟨digits, n, heq, hcolon, hnumeral, -⟩ := numbered?_eq_some_iff.1 hsome
    exact h label digits heq hcolon n hnumeral

theorem ne_of_colon {label digits location : Text} (h : ':' ∉ location) :
    label ++ ':' :: digits ≠ location :=
  fun heq => h (heq ▸ by simp)

theorem readLocation_eq_iff {location tail : Text} (htail : ':' ∉ tail) {label : Option Text}
    {line : LineNumber} :
    readLocation location tail = (label, line) ↔ Locates location label line := by
  constructor
  · intro h
    rw [readLocation] at h
    split at h
    · next hnative =>
      cases h
      exact hnative ▸ .native
    split at h
    · next hunknown =>
      cases h
      exact hunknown ▸ .unknown
    next hnative hunknown =>
      cases hnumbered : numbered? location with
      | some parts =>
        rw [hnumbered] at h
        cases h
        obtain ⟨digits, n, rfl, hcolon, hnumeral, hline⟩ := numbered?_eq_some_iff.1 hnumbered
        exact hline ▸ .numbered hcolon hnumeral
      | none =>
        rw [hnumbered] at h
        cases h
        exact .plain hnative hunknown (numbered?_eq_none_iff.1 hnumbered)
  · intro h
    cases h with
    | native => rfl
    | unknown => rfl
    | @numbered label digits n hcolon hnumeral =>
      have hnumbered : numbered? (label ++ ':' :: digits) = some (label, .number n) :=
        numbered?_eq_some_iff.2 ⟨digits, n, rfl, hcolon, hnumeral, rfl⟩
      rw [readLocation, if_neg (ne_of_colon (by decide)), if_neg (ne_of_colon (by decide)),
        if_neg htail, hnumbered]
    | plain hnative hunknown hnumber =>
      rw [readLocation, if_neg hnative, if_neg hunknown, if_neg htail,
        numbered?_eq_none_iff.2 hnumber]

/-! ## Names -/

theorem readName_of_dot {unit operation : Text} (hdot : '.' ∉ operation) :
    readName (unit ++ '.' :: operation) =
      if unit = [] then .error .noUnit
      else if operation = [] then .error .noOperation
      else .ok (unit, operation) := by
  rw [readName, Text.cutLast?_eq_some_iff.2 ⟨rfl, hdot⟩]

theorem readName_of_dot_not_mem {name : Text} (hdot : '.' ∉ name) :
    readName name = .error .noUnit := by
  rw [readName, Text.cutLast?_eq_none_iff.2 hdot]

theorem readName_eq_ok_iff {name unit operation : Text} :
    readName name = .ok (unit, operation) ↔
      name = unit ++ '.' :: operation ∧ unit ≠ [] ∧ operation ≠ [] ∧ '.' ∉ operation := by
  constructor
  · intro h
    cases hcut : name.cutLast? '.' with
    | none =>
      rw [readName, hcut] at h
      cases h
    | some parts =>
      obtain ⟨rfl, hdot⟩ := Text.cutLast?_eq_some_iff.1 (hcut : _ = some (parts.1, parts.2))
      rw [readName_of_dot hdot] at h
      split at h
      · cases h
      split at h
      · cases h
      next hunit hoperation =>
        cases h
        exact ⟨rfl, hunit, hoperation, hdot⟩
  · rintro ⟨rfl, hunit, hoperation, hdot⟩
    rw [readName_of_dot hdot, if_neg hunit, if_neg hoperation]

/-! ## Frames -/

/-- Whether a name and a location are parted by the first opening parenthesis of a text, and the
location ends at the last closing one. -/
structure Bracketed (t name location tail : Text) : Prop where
  eq : t = name ++ '(' :: (location ++ ')' :: tail)
  opening : '(' ∉ name
  closing : ')' ∉ tail

theorem read_of_opening_not_mem {t : Text} (h : '(' ∉ t) : Frame.read t = .error .noOpening := by
  rw [read, Text.cut?_singleton_eq_none_iff.2 h]

theorem read_of_closing_not_mem {name rest : Text} (hopening : '(' ∉ name)
    (hclosing : ')' ∉ rest) : Frame.read (name ++ '(' :: rest) = .error .noClosing := by
  rw [read, Text.cut?_singleton_eq_some_iff.2 ⟨rfl, hopening⟩]
  simp only [Text.cutLast?_eq_none_iff.2 hclosing]

theorem read_of_bracketed {t name location tail : Text} (h : Bracketed t name location tail) :
    Frame.read t = (readName name).map fun parts =>
      ⟨parts.1, parts.2, (readLocation location tail).1, (readLocation location tail).2⟩ := by
  have hlast : Text.cutLast? (location ++ ')' :: tail) ')' = some (location, tail) :=
    Text.cutLast?_eq_some_iff.2 ⟨rfl, h.closing⟩
  rw [read, Text.cut?_singleton_eq_some_iff.2 ⟨h.eq, h.opening⟩]
  simp only [hlast]

theorem bracketed_cases (t : Text) :
    '(' ∉ t ∨ (∃ name rest, t = name ++ '(' :: rest ∧ '(' ∉ name ∧ ')' ∉ rest) ∨
      ∃ name location tail, Bracketed t name location tail := by
  cases hcut : t.cut? ['('] with
  | none => exact .inl (Text.cut?_singleton_eq_none_iff.1 hcut)
  | some parts =>
    obtain ⟨heq, hopening⟩ := Text.cut?_singleton_eq_some_iff.1 (hcut : _ = some (parts.1, parts.2))
    cases hlast : parts.2.cutLast? ')' with
    | none => exact .inr (.inl ⟨_, _, heq, hopening, Text.cutLast?_eq_none_iff.1 hlast⟩)
    | some places =>
      obtain ⟨hrest, hclosing⟩ :=
        Text.cutLast?_eq_some_iff.1 (hlast : _ = some (places.1, places.2))
      exact .inr (.inr ⟨_, _, _, hrest ▸ heq, hopening, hclosing⟩)

/-- What a text is: a frame, or no frame for the first of four reasons that holds. -/
inductive Grammar : Text → Except String Frame → Prop
  | noOpening {t : Text} (opening : '(' ∉ t) : Grammar t (.error "missing opening parenthesis")
  | noClosing {name rest : Text} (opening : '(' ∉ name) (closing : ')' ∉ rest) :
      Grammar (name ++ '(' :: rest) (.error "missing closing parenthesis")
  | noDot {t name location tail : Text} (brackets : Bracketed t name location tail)
      (dot : '.' ∉ name) : Grammar t (.error "missing declaring unit")
  | noUnit {t operation location tail : Text}
      (brackets : Bracketed t ('.' :: operation) location tail) (dot : '.' ∉ operation) :
      Grammar t (.error "missing declaring unit")
  | noOperation {t unit location tail : Text}
      (brackets : Bracketed t (unit ++ ['.']) location tail) (unit_ne : unit ≠ []) :
      Grammar t (.error "missing operation name")
  | frame {t unit operation location tail : Text} {label : Option Text} {line : LineNumber}
      (brackets : Bracketed t (unit ++ '.' :: operation) location tail) (unit_ne : unit ≠ [])
      (operation_ne : operation ≠ []) (dot : '.' ∉ operation)
      (locates : Locates location label line) : Grammar t (.ok ⟨unit, operation, label, line⟩)

/-- Whether no colon follows the last closing parenthesis of a text. -/
def ClosesPlainly (t : Text) : Prop :=
  ∀ front tail, t = front ++ ')' :: tail → ')' ∉ tail → ':' ∉ tail

theorem closesPlainly_iff {t : Text} :
    ClosesPlainly t ↔ ∀ parts ∈ t.cutLast? ')', ':' ∉ parts.2 := by
  simp only [Option.mem_def, Prod.forall, Text.cutLast?_eq_some_iff, and_imp]
  rfl

instance (t : Text) : Decidable (ClosesPlainly t) := decidable_of_iff _ closesPlainly_iff.symm

theorem Bracketed.colon_not_mem {t name location tail : Text} (h : Bracketed t name location tail)
    (ht : ClosesPlainly t) : ':' ∉ tail :=
  ht (name ++ '(' :: location) tail (by simp [h.eq]) h.closing

theorem Bracketed.grammar {t name location tail : Text} (h : Bracketed t name location tail)
    (ht : ClosesPlainly t) : Grammar t ((Frame.read t).mapError FrameError.reason) := by
  rw [read_of_bracketed h]
  cases hcut : name.cutLast? '.' with
  | none =>
    have hdot := Text.cutLast?_eq_none_iff.1 hcut
    rw [readName_of_dot_not_mem hdot]
    exact .noDot h hdot
  | some parts =>
    obtain ⟨rfl, hdot⟩ := Text.cutLast?_eq_some_iff.1 (hcut : _ = some (parts.1, parts.2))
    rw [readName_of_dot hdot]
    split
    · next hunit =>
      rw [hunit] at h
      exact .noUnit h hdot
    split
    · next hunit hoperation =>
      rw [hoperation] at h
      exact .noOperation h hunit
    · next hunit hoperation =>
      exact .frame h hunit hoperation hdot ((readLocation_eq_iff (h.colon_not_mem ht)).1 rfl)

theorem read_iff_grammar {t : Text} (ht : ClosesPlainly t) {result : Except String Frame} :
    (Frame.read t).mapError FrameError.reason = result ↔ Grammar t result := by
  constructor
  · rintro rfl
    rcases bracketed_cases t with hopening | ⟨name, rest, rfl, hopening, hclosing⟩ |
      ⟨name, location, tail, hbrackets⟩
    · rw [read_of_opening_not_mem hopening]
      exact .noOpening hopening
    · rw [read_of_closing_not_mem hopening hclosing]
      exact .noClosing hopening hclosing
    · exact hbrackets.grammar ht
  · intro h
    cases h with
    | noOpening hopening =>
      rw [read_of_opening_not_mem hopening]
      rfl
    | noClosing hopening hclosing =>
      rw [read_of_closing_not_mem hopening hclosing]
      rfl
    | noDot hbrackets hdot =>
      rw [read_of_bracketed hbrackets, readName_of_dot_not_mem hdot]
      rfl
    | noUnit hbrackets hdot =>
      rw [read_of_bracketed hbrackets, ← List.nil_append ('.' :: _), readName_of_dot hdot, if_pos rfl]
      rfl
    | noOperation hbrackets hunit =>
      rw [read_of_bracketed hbrackets, readName_of_dot List.not_mem_nil, if_neg hunit, if_pos rfl]
      rfl
    | frame hbrackets hunit hoperation hdot hlocates =>
      rw [read_of_bracketed hbrackets, readName_of_dot hdot, if_neg hunit, if_neg hoperation,
        (readLocation_eq_iff (hbrackets.colon_not_mem ht)).2 hlocates]
      rfl

/-- Reading from a byte offset gives what the grammar says of the rest of the text, and it fails
where no character starts and the text does not end. -/
theorem readAt_iff_grammar {t : Text} {start : Nat}
    (h : ∀ rest, t.RestAt start rest → ClosesPlainly rest) (result : Except String Frame) :
    (readAt t start).mapError FrameError.reason = result ↔
      (∃ rest, t.RestAt start rest ∧ Grammar rest result) ∨
        (∀ rest, ¬ t.RestAt start rest) ∧ result = .error "start offset is out of bounds" := by
  simp only [← Text.dropBytes?_eq_some_iff] at h ⊢
  rw [readAt]
  cases hdrop : t.dropBytes? start with
  | none => simp [FrameError.reason, Except.mapError, eq_comm]
  | some rest => simp [read_iff_grammar (h rest hdrop)]

/-! Parentheses and colons in a label, a sign and a zero before the number, and a character of two
bytes before the frame. -/

def framedText : Text := "é\tat a.b.run(C:x)(y:+08) [z".toList

def framedRest : Text := "a.b.run(C:x)(y:+08) [z".toList

def framed : Frame := ⟨"a.b".toList, "run".toList, some "C:x)(y".toList, .number 8⟩

theorem readAt_framed : (∀ rest, framedText.RestAt 6 rest → ClosesPlainly rest) ∧
    Grammar framedRest (.ok framed) ∧
    (readAt framedText 6).mapError FrameError.reason = .ok framed := by
  have hdrop : framedText.dropBytes? 6 = some framedRest := by decide
  have hclose : ∀ rest, framedText.RestAt 6 rest → ClosesPlainly rest := by
    intro rest hrest
    obtain rfl := Option.some.inj (hdrop.symm.trans (Text.dropBytes?_eq_some_iff.2 hrest))
    decide
  have hnumber : Text.Numeral "+08".toList (8 : Int32).toInt := .plus (.more (.one rfl) rfl)
  have hbrackets : Bracketed framedRest ("a.b".toList ++ '.' :: "run".toList)
      ("C:x)(y".toList ++ ':' :: "+08".toList) " [z".toList := ⟨rfl, by decide, by decide⟩
  have hgrammar : Grammar framedRest (.ok framed) :=
    .frame hbrackets (by decide) (by decide) (by decide) (.numbered (by decide) hnumber)
  exact ⟨hclose, hgrammar,
    (readAt_iff_grammar hclose _).2 (.inl ⟨_, Text.dropBytes?_eq_some_iff.1 hdrop, hgrammar⟩)⟩

end Frame
end Stacktrace
