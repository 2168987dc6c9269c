import Mathlib.Data.List.Basic
import Stacktrace.Proofs.FrameGrammar

/-!
# Frames in the form in which they are written

A frame can be read from many texts: its line number may have a sign and zeros in front, and any
text may follow its last closing parenthesis. The one that it is written as is read as the same
frame if it was read from a text that ends with that parenthesis (`read_render`); otherwise a colon
in what follows it can hide the line number.
-/

namespace Stacktrace.Frame

/-- How the text of a frame is divided when the frame is read. -/
structure Divides (f : Frame) (t location tail : Text) : Prop where
  eq : t = f.qualified ++ '(' :: (location ++ ')' :: tail)
  opening : '(' ∉ f.qualified
  closing : ')' ∉ tail
  name : readName f.qualified = .ok (f.unit, f.operation)
  place : readLocation location tail = (f.label, f.line)

theorem Divides.tail_eq_nil {f : Frame} {t place tail : Text} (h : f.Divides t place tail)
    (hlast : t.getLast? = some ')') : tail = [] := by
  rcases tail.eq_nil_or_concat' with rfl | ⟨init, c, rfl⟩
  · rfl
  · have hparts : t = f.qualified ++ '(' :: (place ++ ')' :: init) ++ [c] := by
      simp [h.eq]
    rw [hparts, List.getLast?_concat] at hlast
    exact absurd (by simp [Option.some.inj hlast]) h.closing

theorem read_eq_ok_iff {t : Text} {f : Frame} :
    Frame.read t = .ok f ↔ ∃ location tail, f.Divides t location tail := by
  constructor
  · intro h
    rcases bracketed_cases t with hopening | ⟨name, rest, rfl, hopening, hclosing⟩ |
      ⟨name, place, tail, hbrackets⟩
    · rw [read_of_opening_not_mem hopening] at h
      cases h
    · rw [read_of_closing_not_mem hopening hclosing] at h
      cases h
    · rw [read_of_bracketed hbrackets] at h
      cases hname : readName name with
      | error e =>
        rw [hname] at h
        cases h
      | ok parts =>
        rw [hname] at h
        obtain rfl := Except.ok.inj h
        obtain ⟨rfl, -⟩ := readName_eq_ok_iff.1 hname
        exact ⟨place, tail, hbrackets.eq, hbrackets.opening, hbrackets.closing, hname, rfl⟩
  · rintro ⟨place, tail, hdivides⟩
    rw [read_of_bracketed ⟨hdivides.eq, hdivides.opening, hdivides.closing⟩, hdivides.name]
    simp only [hdivides.place]
    rfl

theorem subset_of_readLocation {place tail label : Text} {line : LineNumber}
    (h : readLocation place tail = (some label, line)) : label ⊆ place := by
  by_cases htail : ':' ∈ tail
  · simp only [readLocation, htail] at h
    split at h
    · cases h
    split at h
    · cases h
    · cases h
      exact List.Subset.refl place
  · cases (readLocation_eq_iff htail).1 h with
    | numbered => exact List.subset_append_left label _
    | plain => exact List.Subset.refl place

theorem lineFeed_not_mem_location {label : Option Text} (h : ∀ text ∈ label, '\n' ∉ text)
    (line : LineNumber) : '\n' ∉ location label line := by
  have hnative : '\n' ∉ nativeMethod := by decide
  have hunknown : '\n' ∉ unknownSource := by decide
  cases label with
  | none => cases line <;> assumption
  | some label =>
    cases line with
    | number n => simpa [location, Text.lineFeed_not_mem_ofInt] using h label rfl
    | native => exact hnative
    | unavailable => exact h label rfl

theorem getLast?_render (f : Frame) : f.render.getLast? = some ')' := by
  rw [render, List.getLast?_concat]

/-- Which frames are read back from the text that they are written as. -/
theorem read_render_iff {f : Frame} : Frame.read f.render = .ok f ↔
    '(' ∉ f.qualified ∧ readName f.qualified = .ok (f.unit, f.operation) ∧
      Faithful f.label f.line := by
  constructor
  · intro h
    obtain ⟨place, tail, hdivides⟩ := read_eq_ok_iff.1 h
    obtain rfl := hdivides.tail_eq_nil (getLast?_render f)
    have hlocates := (readLocation_eq_iff List.not_mem_nil).1 hdivides.place
    exact ⟨hdivides.opening, hdivides.name, hlocates.faithful⟩
  · rintro ⟨hopening, hname, hfaithful⟩
    have hplace := (readLocation_eq_iff List.not_mem_nil).2 hfaithful.locates
    refine read_eq_ok_iff.2 ⟨_, [], ?_, hopening, List.not_mem_nil, hname, hplace⟩
    rw [render, List.append_assoc, List.cons_append]

section Read
variable {t : Text} {f : Frame} (h : Frame.read t = .ok f)
include h

theorem lineFeed_not_mem_render (ht : '\n' ∉ t) : '\n' ∉ f.render := by
  obtain ⟨place, tail, hdivides⟩ := read_eq_ok_iff.1 h
  rw [hdivides.eq] at ht
  simp only [List.mem_append, List.mem_cons, not_or] at ht
  have hlabel : ∀ text ∈ f.label, '\n' ∉ text := by
    intro text htext hmem
    have hplace : readLocation place tail = (some text, f.line) := by rw [hdivides.place, htext]
    exact ht.2.2.1 (subset_of_readLocation hplace hmem)
  simp [render, ht.1, lineFeed_not_mem_location hlabel f.line]

/-- A frame that was read from a text ending with its closing parenthesis can be read again. -/
theorem read_render (hlast : t.getLast? = some ')') : Frame.read f.render = .ok f := by
  obtain ⟨place, tail, hdivides⟩ := read_eq_ok_iff.1 h
  obtain rfl := hdivides.tail_eq_nil hlast
  have hlocates := (readLocation_eq_iff List.not_mem_nil).1 hdivides.place
  exact read_render_iff.2 ⟨hdivides.opening, hdivides.name, hlocates.faithful⟩

end Read

end Stacktrace.Frame
