import Stacktrace.Proofs.CanonicalFrames

/-!
# Frames that are read back

A frame is read back from the text that it is written as if each of its parts allows it, whatever
stands before that text (`readAt_render_iff`). What stands behind a frame is not part of it, but
still matters to the reader if there is a colon in it: then the frame keeps its parts only if it has
no line number, and a line number becomes part of the label (`readAt_append_iff`).
-/

namespace Stacktrace

theorem Text.RestAt.append {t rest : Text} {start : Nat} (h : t.RestAt start rest) (more : Text) :
    Text.RestAt (t ++ more) start (rest ++ more) := by
  obtain ⟨before, rfl, hsize⟩ := h
  exact ⟨before, List.append_assoc before rest more, hsize⟩

namespace Frame

/-! ## What stands before a frame -/

/-- A frame is read back exactly if its names are there and end where the text says so, and the
location that is written for it states its label and line. -/
theorem readAt_render_iff (f : Frame) (before : Text) :
    readAt (before ++ f.render) before.byteSize = .ok f ↔
      (f.unit ≠ [] ∧ '(' ∉ f.unit) ∧
        (f.operation ≠ [] ∧ '.' ∉ f.operation ∧ '(' ∉ f.operation) ∧
          Faithful f.label f.line := by
  have hopening : '(' ∉ f.qualified ↔ '(' ∉ f.unit ∧ '(' ∉ f.operation := by
    simp [qualified]
  have hname : readName f.qualified = .ok (f.unit, f.operation) ↔
      f.unit ≠ [] ∧ f.operation ≠ [] ∧ '.' ∉ f.operation := by
    simp [readName_eq_ok_iff, qualified]
  rw [readAt, Text.dropBytes?_append]
  simp only [read_render_iff, hname, hopening]
  tauto

/-- A label that ends as if with a line number is not read back. -/
example : Frame.read (render ⟨['u'], ['o'], some "C:-4".toList, .unavailable⟩) =
    .ok ⟨['u'], ['o'], some ['C'], .number (-4)⟩ := rfl

/-! ## What stands behind a frame -/

theorem readLocation_of_colon {label digits tail : Text} (htail : ':' ∈ tail) :
    readLocation (label ++ ':' :: digits) tail = (some (label ++ ':' :: digits), .unavailable) := by
  rw [readLocation, if_neg (ne_of_colon (by decide)), if_neg (ne_of_colon (by decide)),
    if_pos htail]

/-- A colon behind the closing parenthesis hides the number of a location and nothing else. -/
theorem readLocation_eq_iff_of_locates {place tail : Text} {label : Option Text}
    {line : LineNumber} (h : Locates place label line) :
    readLocation place tail = (label, line) ↔ ':' ∉ tail ∨ ∀ n, line ≠ .number n := by
  by_cases htail : ':' ∈ tail
  · cases h with
    | native => simp [readLocation]
    | unknown => simp [readLocation, show unknownSource ≠ nativeMethod by decide]
    | numbered => simp [readLocation_of_colon, htail]
    | plain hnative hunknown => simp [readLocation, hnative, hunknown, htail]
  · simp [(readLocation_eq_iff htail).2 h, htail]

theorem Divides.read_append {f : Frame} {t place tail : Text} (h : f.Divides t place [])
    (htail : ')' ∉ tail) : Frame.read (t ++ tail) = .ok
      { f with label := (readLocation place tail).1, line := (readLocation place tail).2 } := by
  have hbrackets : Bracketed (t ++ tail) f.qualified place tail :=
    ⟨by simp [h.eq], h.opening, htail⟩
  rw [read_of_bracketed hbrackets, h.name]
  rfl

theorem exists_divides_of_readAt {t : Text} {start : Nat} {f : Frame}
    (hlast : t.getLast? = some ')') (h : readAt t start = .ok f) :
    ∃ rest place, t.RestAt start rest ∧ f.Divides rest place [] := by
  rw [readAt] at h
  split at h
  · cases h
  · next rest hdrop =>
    obtain ⟨place, tail, hdivides⟩ := read_eq_ok_iff.1 h
    obtain ⟨before, heq, hsize⟩ := Text.dropBytes?_eq_some_iff.1 hdrop
    have hne : rest ≠ [] := by simp [hdivides.eq]
    rw [heq, List.getLast?_append_of_ne_nil _ hne] at hlast
    obtain rfl := hdivides.tail_eq_nil hlast
    exact ⟨rest, place, ⟨before, heq, hsize⟩, hdivides⟩

/-- What follows the closing parenthesis of a frame changes the frame only if it has a colon in it
and the frame has a line number, which then is read as the end of the label. -/
theorem readAt_append_iff {t tail : Text} {start : Nat} {f : Frame}
    (hlast : t.getLast? = some ')') (h : readAt t start = .ok f) (htail : ')' ∉ tail) :
    (readAt (t ++ tail) start = .ok f ↔ ':' ∉ tail ∨ ∀ n, f.line ≠ .number n) ∧
      ∀ n, f.line = .number n → ':' ∈ tail → ∃ label digits,
        f.label = some label ∧ Text.Numeral digits n.toInt ∧ readAt (t ++ tail) start =
          .ok { f with label := some (label ++ ':' :: digits), line := .unavailable } := by
  obtain ⟨rest, place, hrest, hdivides⟩ := exists_divides_of_readAt hlast h
  have hlocates : Locates place f.label f.line :=
    (readLocation_eq_iff List.not_mem_nil).1 hdivides.place
  have hread : readAt (t ++ tail) start = .ok
      { f with label := (readLocation place tail).1, line := (readLocation place tail).2 } := by
    rw [readAt, Text.dropBytes?_eq_some_iff.2 (hrest.append tail)]
    exact hdivides.read_append htail
  constructor
  · rw [hread, ← readLocation_eq_iff_of_locates hlocates]
    cases f
    simp [Prod.ext_iff]
  · intro n hline hcolon
    rw [hline] at hlocates
    generalize hlabel : f.label = found at hlocates
    cases hlocates with
    | @numbered label digits _ _ hnumber =>
      refine ⟨label, digits, rfl, hnumber, ?_⟩
      rw [hread, readLocation_of_colon hcolon]

/-! A frame behind a marker, with the archive that it comes from behind it. -/

def markedText : Text := "\tat app.Main.run(Main.java:8)".toList

def archive : Text := " ~[app.jar:1.2]".toList

def marked : Frame := ⟨"app.Main".toList, "run".toList, some "Main.java".toList, .number 8⟩

def merged : Frame := { marked with label := some "Main.java:8".toList, line := .unavailable }

/-- What follows a frame can take the line number from it. -/
theorem readAt_archive : markedText.getLast? = some ')' ∧ ')' ∉ archive ∧
    readAt markedText 4 = .ok marked ∧ readAt (markedText ++ archive) 4 = .ok merged ∧
      merged ≠ marked :=
  ⟨rfl, by decide, rfl, rfl, by decide⟩

theorem readAt_append_opened : markedText.getLast? = some ')' ∧ readAt markedText 4 = .ok marked ∧
    ')' ∉ " (x.y".toList ∧ readAt (markedText ++ " (x.y".toList) 4 = .ok marked ∧
      ')' ∉ archive ∧ readAt (markedText ++ archive) 4 ≠ .ok marked := by
  have hread : readAt markedText 4 = .ok marked := rfl
  have hopened : ')' ∉ " (x.y".toList := by decide
  have harchive : ')' ∉ archive := by decide
  refine ⟨rfl, hread, hopened, (readAt_append_iff rfl hread hopened).1.2 (.inl (by decide)),
    harchive, fun hsame => ?_⟩
  rcases (readAt_append_iff rfl hread harchive).1.1 hsame with hcolon | hnumber
  · exact hcolon (by decide)
  · exact hnumber 8 rfl

end Frame
end Stacktrace
