/-!
Texts as lists of characters, and the few ways in which the trace format takes them apart:
what follows a token, the first occurrence of a token, the last occurrence of a character.
-/

namespace Stacktrace

/-- All data of the library that is text: a list of characters. -/
abbrev Text := List Char

namespace Text

/-- What follows `token` in a text that starts with it. -/
def after? : Text → Text → Option Text
  | t, [] => some t
  | [], _ :: _ => none
  | c :: t, d :: token => if c = d then after? t token else none

theorem after?_eq_some_iff {t token r : Text} : t.after? token = some r ↔ t = token ++ r := by
  induction token generalizing t with
  | nil => cases t <;> simp [after?]
  | cons d token ih =>
    cases t with
    | nil => simp [after?]
    | cons c t => by_cases h : c = d <;> simp [after?, h, ih]

@[simp]
theorem after?_append (token r : Text) : after? (token ++ r) token = some r :=
  after?_eq_some_iff.2 rfl

def startsWith (t token : Text) : Bool := (t.after? token).isSome

theorem startsWith_iff {t token : Text} : t.startsWith token = true ↔ ∃ r, t = token ++ r := by
  simp [startsWith, Option.isSome_iff_exists, after?_eq_some_iff]

/-- What precedes `token` in a text that ends with it. -/
def before? (t token : Text) : Option Text :=
  (after? t.reverse token.reverse).map List.reverse

theorem before?_eq_some_iff {t token r : Text} : t.before? token = some r ↔ t = r ++ token := by
  simp only [before?, Option.map_eq_some_iff, after?_eq_some_iff]
  constructor
  · rintro ⟨a, h, rfl⟩
    rw [← t.reverse_reverse, h]
    simp
  · rintro rfl
    exact ⟨r.reverse, by simp, by simp⟩

/-- Whether `piece` occurs somewhere in the text. -/
def includes : Text → Text → Bool
  | [], piece => piece.isEmpty
  | c :: t, piece => startsWith (c :: t) piece || includes t piece

theorem includes_iff {t piece : Text} : t.includes piece = true ↔ ∃ a b, t = a ++ piece ++ b := by
  induction t with
  | nil => simp [includes]
  | cons c t ih =>
    rw [includes, Bool.or_eq_true, startsWith_iff, ih]
    constructor
    · rintro (⟨r, h⟩ | ⟨a, b, rfl⟩)
      · exact ⟨[], r, by simpa using h⟩
      · exact ⟨c :: a, b, by simp⟩
    · rintro ⟨a, b, h⟩
      cases a with
      | nil => exact .inl ⟨b, by simpa using h⟩
      | cons d a => exact .inr ⟨a, b, by simp_all⟩

/-- The text before and after the first occurrence of a token that is not empty. -/
def cut? : Text → Text → Option (Text × Text)
  | [], _ => none
  | c :: t, token =>
    match after? (c :: t) token with
    | some rest => some ([], rest)
    | none => (cut? t token).map fun parts => (c :: parts.1, parts.2)

/-- The text before and after the last occurrence of a character. -/
def cutLast? : Text → Char → Option (Text × Text)
  | [], _ => none
  | c :: t, sep =>
    match cutLast? t sep with
    | some (a, b) => some (c :: a, b)
    | none => if c = sep then some ([], t) else none

theorem cutLast?_eq_none_iff {t : Text} {sep : Char} : t.cutLast? sep = none ↔ sep ∉ t := by
  induction t with
  | nil => simp [cutLast?]
  | cons c t ih =>
    rw [cutLast?]
    split
    · next h => simp_all
    · next h =>
      by_cases hc : c = sep
      · simp [hc]
      · simp [hc, ih.1 h, Ne.symm hc]

theorem cutLast?_eq_some_iff {t a b : Text} {sep : Char} :
    t.cutLast? sep = some (a, b) ↔ t = a ++ sep :: b ∧ sep ∉ b := by
  induction t generalizing a with
  | nil => simp [cutLast?]
  | cons c t ih =>
    rw [cutLast?]
    split
    · next a' b' h =>
      have hmem : sep ∈ t := by
        have := (ih (a := a')).1
        by_cases hs : sep ∈ t
        · exact hs
        · rw [cutLast?_eq_none_iff.2 hs] at h; cases h
      cases a with
      | nil => simp; rintro rfl rfl; exact hmem
      | cons d a =>
        have := ih (a := a)
        rw [h] at this
        simp at this ⊢
        constructor
        · rintro ⟨⟨rfl, rfl⟩, rfl⟩; exact ⟨⟨rfl, (this.1 ⟨rfl, rfl⟩).1⟩, (this.1 ⟨rfl, rfl⟩).2⟩
        · rintro ⟨⟨rfl, h1⟩, h2⟩
          obtain ⟨rfl, rfl⟩ := this.2 ⟨h1, h2⟩
          exact ⟨⟨rfl, rfl⟩, rfl⟩
    · next h =>
      have hs := cutLast?_eq_none_iff.1 h
      cases a with
      | nil =>
        by_cases hc : c = sep
        · simp [hc]; rintro rfl; exact hs
        · simp [hc]
      | cons d a =>
        constructor
        · split <;> simp
        · rintro ⟨h1, _⟩
          simp at h1
          exact absurd (by simp [h1.2]) hs

end Text
end Stacktrace
