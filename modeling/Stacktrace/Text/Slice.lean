import Stacktrace.Text.Utf8

/-!
Parts of a text that are cut out by byte offsets. A cut gives a text only where both offsets lie in
the text, in order, and no character is divided.
-/

namespace Stacktrace.Text

/-- The text up to a byte offset, if a character starts there or the text ends there. -/
def takeBytes? : Text → Nat → Option Text
  | _, 0 => some []
  | [], _ + 1 => none
  | c :: t, n + 1 =>
    if c.utf8Size ≤ n + 1 then (takeBytes? t (n + 1 - c.utf8Size)).map (c :: ·) else none

/-- The text between two byte offsets. -/
def slice? (t : Text) (start stop : Nat) : Option Text :=
  if start ≤ stop then (t.dropBytes? start).bind (takeBytes? · (stop - start)) else none

theorem byteSize_append (t rest : Text) : byteSize (t ++ rest) = byteSize t + byteSize rest := by
  induction t with
  | nil => simp [byteSize]
  | cons c t ih => rw [List.cons_append, byteSize, byteSize, ih, Nat.add_assoc]

theorem byteSize_eq_zero_iff {t : Text} : byteSize t = 0 ↔ t = [] := by
  cases t with
  | nil => simp [byteSize]
  | cons c t =>
    have hpos : 0 < c.utf8Size := c.utf8Size_pos
    simp only [byteSize, reduceCtorEq, iff_false]
    omega

theorem takeBytes?_append (part rest : Text) : takeBytes? (part ++ rest) part.byteSize = some part := by
  induction part with
  | nil => cases rest <;> rfl
  | cons c part ih =>
    have hpos : 0 < c.utf8Size := c.utf8Size_pos
    obtain ⟨n, hn⟩ : ∃ n, c.utf8Size + byteSize part = n + 1 :=
      Nat.exists_eq_add_of_le' (Nat.le_trans hpos (Nat.le_add_right _ _))
    have hle : c.utf8Size ≤ n + 1 := by omega
    have hrest : n + 1 - c.utf8Size = byteSize part := by omega
    rw [byteSize, hn, List.cons_append, takeBytes?, if_pos hle, hrest, ih, Option.map_some]

theorem takeBytes?_eq_some_iff {t part : Text} {n : Nat} :
    t.takeBytes? n = some part ↔ byteSize part = n ∧ ∃ rest, t = part ++ rest := by
  constructor
  · intro h
    induction t generalizing n part with
    | nil =>
      cases n with
      | zero =>
        cases h
        exact ⟨rfl, [], rfl⟩
      | succ n => cases h
    | cons c t ih =>
      cases n with
      | zero =>
        cases h
        exact ⟨rfl, c :: t, rfl⟩
      | succ n =>
        rw [takeBytes?, Option.ite_none_right_eq_some] at h
        obtain ⟨hle, h⟩ := h
        obtain ⟨part, hpart, rfl⟩ := Option.map_eq_some_iff.1 h
        obtain ⟨hsize, rest, rfl⟩ := ih hpart
        exact ⟨by rw [byteSize, hsize, Nat.add_sub_cancel' hle], rest, rfl⟩
  · rintro ⟨rfl, rest, rfl⟩
    exact takeBytes?_append part rest

theorem slice?_append (before part after : Text) :
    slice? (before ++ part ++ after) before.byteSize (before.byteSize + part.byteSize) =
      some part := by
  rw [slice?, if_pos (Nat.le_add_right _ _), List.append_assoc, dropBytes?_append, Option.bind_some,
    takeBytes?_eq_some_iff]
  exact ⟨(Nat.add_sub_cancel_left _ _).symm, after, rfl⟩

end Stacktrace.Text
