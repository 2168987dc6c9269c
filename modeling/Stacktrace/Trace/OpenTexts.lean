import Stacktrace.Text.Basic

/-!
The table of the display texts of the failures whose relations are being written, by identity. Its
entries stand in the order in which they came. A failure with the identity of one that is in the
table already takes over the entry, where it stands, and gives it back when it is left; any other
failure has the last entry until it is left.
-/

namespace Stacktrace
variable {ι : Type}

abbrev OpenTexts (ι : Type) := List (ι × Text)

namespace OpenTexts
variable [DecidableEq ι]

/-- The text that an entry had before, and the table with the new text in it. -/
def put (i : ι) (display : Text) : OpenTexts ι → Option Text × OpenTexts ι
  | [] => (none, [(i, display)])
  | (j, old) :: rest =>
    if j = i then (some old, (j, display) :: rest)
    else
      let (shadowed, rest) := put i display rest
      (shadowed, (j, old) :: rest)

/-- The table without what the last `put` did, given the text that it found. -/
def leave (i : ι) (shadowed : Option Text) (opened : OpenTexts ι) : OpenTexts ι :=
  match shadowed with
  | some display => (opened.put i display).2
  | none => opened.dropLast

@[simp]
theorem put_cons_self (i : ι) (display old : Text) (rest : OpenTexts ι) :
    put i display ((i, old) :: rest) = (some old, (i, display) :: rest) := by
  rw [put, if_pos rfl]

theorem put_cons_of_ne {i j : ι} (h : j ≠ i) (display old : Text) (rest : OpenTexts ι) :
    put i display ((j, old) :: rest) =
      ((put i display rest).1, (j, old) :: (put i display rest).2) := by
  rw [put, if_neg h]

theorem put_ne_nil (i : ι) (display : Text) (opened : OpenTexts ι) :
    (opened.put i display).2 ≠ [] := by
  cases opened with
  | nil => exact List.cons_ne_nil _ _
  | cons entry rest =>
    rw [put]
    split <;> exact List.cons_ne_nil _ _

theorem lookup_put (i j : ι) (display : Text) (opened : OpenTexts ι) :
    (opened.put i display).2.lookup j = List.lookup j ((i, display) :: opened) := by
  induction opened with
  | nil => rfl
  | cons entry rest ih =>
    obtain ⟨k, old⟩ := entry
    by_cases hk : k = i
    · subst hk
      rw [put_cons_self, List.lookup_cons, List.lookup_cons, List.lookup_cons]
      split <;> rfl
    · rw [put_cons_of_ne hk, List.lookup_cons, ih, List.lookup_cons, List.lookup_cons,
        List.lookup_cons]
      by_cases hj : j = k
      · have hi : (j == i) = false := beq_false_of_ne (hj ▸ hk)
        rw [hi]
      · rw [beq_false_of_ne hj]

/-- Leaving a failure gives back the table as it was found. -/
theorem leave_put (i : ι) (display : Text) (opened : OpenTexts ι) :
    (opened.put i display).2.leave i (opened.put i display).1 = opened := by
  induction opened with
  | nil => rfl
  | cons entry rest ih =>
    obtain ⟨j, old⟩ := entry
    by_cases hj : j = i
    · subst hj
      rw [put_cons_self, leave, put_cons_self]
    · rw [put_cons_of_ne hj]
      cases hshadowed : (put i display rest).1 with
      | some shadowed =>
        rw [hshadowed] at ih
        rw [leave, put_cons_of_ne hj]
        exact congrArg ((j, old) :: ·) ih
      | none =>
        rw [hshadowed] at ih
        rw [leave, List.dropLast_cons_of_ne_nil (put_ne_nil i display rest)]
        exact congrArg ((j, old) :: ·) ih

end OpenTexts
end Stacktrace
