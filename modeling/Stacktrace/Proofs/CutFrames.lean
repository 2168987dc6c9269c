import Stacktrace.Frame.Scan
import Stacktrace.Proofs.FrameGrammar

/-!
# Frames that are cut out by positions

The positions that a scan of a text finds are those at which the text is parted into unit, operation,
location, label and line number. So every cut between them is in range, and reading by positions
gives the frame, or the error, that reading by parts gives (`readByPositionsAt?_eq_some`).
-/

namespace Stacktrace

namespace Text

theorem slice?_eq_some_iff {t part : Text} {start stop : Nat} :
    t.slice? start stop = some part ↔ ∃ before after, t = before ++ part ++ after ∧
      before.byteSize = start ∧ before.byteSize + part.byteSize = stop := by
  constructor
  · intro h
    rw [slice?, Option.ite_none_right_eq_some] at h
    obtain ⟨hle, h⟩ := h
    obtain ⟨rest, hrest, htake⟩ := Option.bind_eq_some_iff.1 h
    obtain ⟨before, rfl, rfl⟩ := dropBytes?_eq_some_iff.1 hrest
    obtain ⟨hsize, after, rfl⟩ := takeBytes?_eq_some_iff.1 htake
    exact ⟨before, after, (List.append_assoc _ _ _).symm, rfl, by omega⟩
  · rintro ⟨before, after, rfl, rfl, rfl⟩
    exact slice?_append before part after

theorem byteSize_concat {c : Char} (hc : c.utf8Size = 1) (t : Text) :
    byteSize (t ++ [c]) = byteSize t + 1 := by
  rw [byteSize_append, byteSize, hc]
  rfl

/-- The byte offset of the last of some characters in a text that starts at `i`. -/
def lastAt? (i : Nat) (t : Text) (c : Char) : Option Nat :=
  (t.cutLast? c).map fun parts => i + parts.1.byteSize

theorem lastAt?_cons (i : Nat) (d : Char) (t : Text) (c : Char) :
    lastAt? i (d :: t) c = (lastAt? (i + d.utf8Size) t c).or (if d = c then some i else none) := by
  cases hcut : t.cutLast? c with
  | some parts => simp [lastAt?, cutLast?, hcut, byteSize, Nat.add_assoc]
  | none => by_cases hd : d = c <;> simp [lastAt?, cutLast?, hcut, hd, byteSize]

theorem lastAt?_eq_some {a b : Text} {c : Char} (h : c ∉ b) (i : Nat) :
    lastAt? i (a ++ c :: b) c = some (i + a.byteSize) := by
  rw [lastAt?, cutLast?_eq_some_iff.2 ⟨rfl, h⟩, Option.map_some]

theorem lastAt?_eq_none {t : Text} {c : Char} (h : c ∉ t) (i : Nat) : lastAt? i t c = none := by
  rw [lastAt?, cutLast?_eq_none_iff.2 h, Option.map_none]

end Text

namespace Frame
open Text (lastAt?)

namespace Positions

theorem scan_append (p : Positions) (i : Nat) (a b : Text) :
    p.scan i (a ++ b) = (p.scan i a).scan (i + a.byteSize) b := by
  induction a generalizing p i with
  | nil => rfl
  | cons c a ih => rw [List.cons_append, scan, scan, ih, Text.byteSize, Nat.add_assoc]

theorem note_of_opening_eq_none {p : Positions} (hp : p.opening = none) {c : Char} (hc : c ≠ '(')
    (i : Nat) : p.note i c = { p with dot := (if c = '.' then some i else none).or p.dot } := by
  obtain ⟨dot, opening, colon, closing⟩ := p
  unfold note
  split <;> simp_all

theorem note_of_opening {p : Positions} {o : Nat} (hp : p.opening = some o) (i : Nat) (c : Char) :
    p.note i c = { p with
      colon := (if c = ':' then some i else none).or p.colon
      closing := (if c = ')' then some i else none).or p.closing } := by
  obtain ⟨dot, opening, colon, closing⟩ := p
  unfold note
  split <;> simp_all

theorem note_opening {p : Positions} (hp : p.opening = none) (i : Nat) :
    p.note i '(' = { p with opening := some i } := by
  rw [note]
  exact hp

/-- Before the opening parenthesis the last dot is found. -/
theorem scan_of_opening_not_mem {p : Positions} (hp : p.opening = none) {t : Text} (ht : '(' ∉ t)
    (i : Nat) : p.scan i t = { p with dot := (lastAt? i t '.').or p.dot } := by
  induction t generalizing p i with
  | nil => rfl
  | cons c t ih =>
    obtain ⟨hc, ht⟩ := List.ne_and_not_mem_of_not_mem_cons ht
    rw [scan, note_of_opening_eq_none hp hc.symm, Text.lastAt?_cons, Option.or_assoc]
    refine ih ?_ ht _
    exact hp

/-- Behind it the last colon and the last closing parenthesis are. -/
theorem scan_of_opening {p : Positions} {o : Nat} (hp : p.opening = some o) (t : Text) (i : Nat) :
    p.scan i t = { p with
      colon := (lastAt? i t ':').or p.colon, closing := (lastAt? i t ')').or p.closing } := by
  induction t generalizing p i with
  | nil => rfl
  | cons c t ih =>
    rw [scan, note_of_opening hp, Text.lastAt?_cons, Text.lastAt?_cons, Option.or_assoc,
      Option.or_assoc]
    refine ih ?_ _
    exact hp

end Positions

/-- What the scan of a text with brackets finds. -/
theorem scan_of_bracketed {t name location tail : Text} (h : Bracketed t name location tail) :
    Positions.scan {} 0 t = {
      dot := lastAt? 0 name '.'
      opening := some name.byteSize
      colon := lastAt? (name.byteSize + 1) (location ++ ')' :: tail) ':'
      closing := some (name.byteSize + 1 + location.byteSize) } := by
  have hsize : '('.utf8Size = 1 := rfl
  rw [h.eq, Positions.scan_append, Positions.scan_of_opening_not_mem rfl h.opening, Positions.scan,
    Positions.note_opening rfl, Nat.zero_add, hsize, Positions.scan_of_opening rfl]
  simp only [Text.lastAt?_eq_some h.closing, Option.or_none]

section Cuts
variable {t name location tail : Text} (h : Bracketed t name location tail)
include h

theorem slice?_location : t.slice? (name.byteSize + 1) (name.byteSize + 1 + location.byteSize) =
    some location := by
  have hopening : (name ++ ['(']).byteSize = name.byteSize + 1 := Text.byteSize_concat rfl name
  refine Text.slice?_eq_some_iff.2 ⟨name ++ ['('], ')' :: tail, ?_, hopening, ?_⟩
  · rw [h.eq]
    simp
  · rw [hopening]

/-- The label and the digits around a colon of the location. -/
theorem slice?_around_colon {label digits : Text} (hlocation : location = label ++ ':' :: digits) :
    t.slice? (name.byteSize + 1) (name.byteSize + 1 + label.byteSize) = some label ∧
      t.slice? (name.byteSize + 1 + label.byteSize + 1)
        (name.byteSize + 1 + location.byteSize) = some digits := by
  have hopening : (name ++ ['(']).byteSize = name.byteSize + 1 := Text.byteSize_concat rfl name
  have hcolon : (name ++ ['('] ++ label ++ [':']).byteSize =
      name.byteSize + 1 + label.byteSize + 1 := by
    rw [Text.byteSize_concat rfl, Text.byteSize_append, hopening]
  have hsize : location.byteSize = label.byteSize + 1 + digits.byteSize := by
    rw [hlocation, List.append_cons, Text.byteSize_append, Text.byteSize_concat rfl]
  constructor
  · refine Text.slice?_eq_some_iff.2 ⟨name ++ ['('], ':' :: (digits ++ ')' :: tail), ?_, hopening, ?_⟩
    · rw [h.eq, hlocation]
      simp
    · rw [hopening]
  · refine Text.slice?_eq_some_iff.2 ⟨name ++ ['('] ++ label ++ [':'], ')' :: tail, ?_, hcolon, ?_⟩
    · rw [h.eq, hlocation]
      simp
    · rw [hcolon, hsize]
      omega

theorem cutLocation?_eq_some : cutLocation? t (Positions.scan {} 0 t) name.byteSize
    (name.byteSize + 1 + location.byteSize) = some (readLocation location tail) := by
  rw [cutLocation?, slice?_location h, Option.bind_some, readLocation, scan_of_bracketed h]
  by_cases hnative : location = nativeMethod
  · rw [if_pos hnative, if_pos hnative]
  by_cases hunknown : location = unknownSource
  · rw [if_neg hnative, if_neg hnative, if_pos hunknown, if_pos hunknown]
  rw [if_neg hnative, if_neg hnative, if_neg hunknown, if_neg hunknown]
  cases htail : tail.cutLast? ':' with
  | some parts =>
    -- the last colon stands behind the location
    obtain ⟨rfl, hcolon⟩ := Text.cutLast?_eq_some_iff.1 (htail : _ = some (parts.1, parts.2))
    have hshape : location ++ ')' :: (parts.1 ++ ':' :: parts.2) =
        location ++ [')'] ++ parts.1 ++ ':' :: parts.2 := by simp
    rw [if_pos (by simp), hshape, Text.lastAt?_eq_some hcolon, Option.filter_some, if_neg]
    rw [Text.byteSize_append, Text.byteSize_concat rfl]
    simp
    omega
  | none =>
    have hbehind : ':' ∉ ')' :: tail := by simp [Text.cutLast?_eq_none_iff.1 htail]
    rw [if_neg (Text.cutLast?_eq_none_iff.1 htail), numbered?]
    cases hlocation : location.cutLast? ':' with
    | none =>
      have hnone : ':' ∉ location ++ ')' :: tail :=
        List.not_mem_append (Text.cutLast?_eq_none_iff.1 hlocation) hbehind
      rw [Text.lastAt?_eq_none hnone]
      rfl
    | some parts =>
      obtain ⟨label, digits⟩ := parts
      obtain ⟨hparts, hcolon⟩ := Text.cutLast?_eq_some_iff.1 hlocation
      obtain ⟨hlabel, hdigits⟩ := slice?_around_colon h hparts
      have hlast : lastAt? (name.byteSize + 1) (location ++ ')' :: tail) ':' =
          some (name.byteSize + 1 + label.byteSize) := by
        rw [hparts, List.append_assoc, List.cons_append,
          Text.lastAt?_eq_some (List.not_mem_append hcolon hbehind)]
      have hlt : name.byteSize + 1 + label.byteSize < name.byteSize + 1 + location.byteSize := by
        rw [hparts, List.append_cons, Text.byteSize_append, Text.byteSize_concat rfl]
        omega
      rw [hlast, Option.filter_some, if_pos (decide_eq_true hlt)]
      simp only [hlabel, hdigits, Option.bind_some, Option.map_some]
      cases (Text.toInt? digits).bind LineNumber.ofInt? <;> rfl

end Cuts

theorem slice?_around_dot {t unit operation location tail : Text}
    (h : Bracketed t (unit ++ '.' :: operation) location tail) :
    t.slice? 0 unit.byteSize = some unit ∧
      t.slice? (unit.byteSize + 1) (unit ++ '.' :: operation).byteSize = some operation := by
  have hdot : (unit ++ ['.']).byteSize = unit.byteSize + 1 := Text.byteSize_concat rfl unit
  constructor
  · refine Text.slice?_eq_some_iff.2 ⟨[], '.' :: (operation ++ '(' :: (location ++ ')' :: tail)),
      ?_, rfl, Nat.zero_add _⟩
    rw [h.eq]
    simp
  · refine Text.slice?_eq_some_iff.2 ⟨unit ++ ['.'], '(' :: (location ++ ')' :: tail), ?_, hdot, ?_⟩
    · rw [h.eq]
      simp
    · rw [← Text.byteSize_append, ← List.append_cons]

/-- Every cut is in range, and the parts are those that a text is read by. -/
theorem readByPositions?_eq_some (t : Text) : readByPositions? t = some (read t) := by
  rcases bracketed_cases t with hopening | ⟨name, rest, rfl, hopening, hclosing⟩ |
    ⟨name, location, tail, h⟩
  · rw [readByPositions?, Positions.scan_of_opening_not_mem rfl hopening,
      read_of_opening_not_mem hopening]
  · rw [readByPositions?, Positions.scan_append, Positions.scan_of_opening_not_mem rfl hopening,
      Positions.scan, Positions.note_opening rfl, Positions.scan_of_opening rfl,
      Text.lastAt?_eq_none hclosing, read_of_closing_not_mem hopening hclosing]
    rfl
  · have hplace := cutLocation?_eq_some h
    rw [scan_of_bracketed h] at hplace
    rw [read_of_bracketed h, readByPositions?, scan_of_bracketed h]
    cases hname : name.cutLast? '.' with
    | none =>
      have hdot := Text.cutLast?_eq_none_iff.1 hname
      rw [Text.lastAt?_eq_none hdot, readName_of_dot_not_mem hdot]
      rfl
    | some parts =>
      obtain ⟨unit, operation⟩ := parts
      obtain ⟨rfl, hdot⟩ := Text.cutLast?_eq_some_iff.1 hname
      rw [Text.lastAt?_eq_some hdot, Nat.zero_add] at hplace ⊢
      rw [readName_of_dot hdot]
      by_cases hunit : unit = []
      · rw [if_pos hunit, hunit]
        rfl
      have hpos : 0 < unit.byteSize :=
        Nat.pos_of_ne_zero fun hzero => hunit (Text.byteSize_eq_zero_iff.1 hzero)
      obtain ⟨hcutUnit, hcutOperation⟩ := slice?_around_dot h
      rw [Option.filter_some, if_pos (decide_eq_true hpos), if_neg hunit]
      simp only [hcutUnit, hcutOperation, Option.bind_some, hplace, Option.map_some]
      split <;> rfl

theorem readByPositionsAt?_eq_some (t : Text) (start : Nat) :
    readByPositionsAt? t start = some (readAt t start) := by
  rw [readByPositionsAt?, readAt]
  cases t.dropBytes? start with
  | none => rfl
  | some rest => exact readByPositions?_eq_some rest

end Frame
end Stacktrace
