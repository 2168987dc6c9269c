import Stacktrace.Proofs.CutFrames
import Stacktrace.Proofs.MarkRows
import Stacktrace.Trace.Descent

/-!
# Lines that are cut by positions

The tabs in front of a line are as many bytes as characters, so the part of a line from the last of
them on is in range, and so is the frame behind the token of one. What a reader by positions finds in
a line is the mark that the line bears.
-/

namespace Stacktrace

namespace Mark

theorem byteSize_indent (depth : Nat) : (indent depth).byteSize = depth := by
  induction depth with
  | zero => rfl
  | succ depth ih =>
    have htab : '\t'.utf8Size = 1 := rfl
    rw [indent_succ, Text.byteSize, ih, htab, Nat.add_comm]

/-- The cut at the last tab is in range, and the bytes tell of a line what its characters tell. -/
theorem endsMessageByPosition?_eq_some (depth : Nat) (line : Text) :
    endsMessageByPosition? depth line = some (endsMessage depth line) := by
  obtain ⟨tabs, rest, hrest, htabs, hline⟩ : ∃ (tabs : Nat) (rest : Text),
      line.dropWhile (· = '\t') = rest ∧ (line.takeWhile (· = '\t')).length = tabs ∧
        line = indent tabs ++ rest :=
    ⟨_, _, rfl, rfl, eq_indent_append line⟩
  have hsize : line.byteSize - rest.byteSize = tabs := by
    rw [hline, Text.byteSize_append, byteSize_indent, Nat.add_sub_cancel]
  rw [endsMessageByPosition?, endsMessage, hrest, htabs, hsize]
  split
  · next hmark =>
    rw [hmark, Bool.true_or]
  · next hmark =>
    rw [Bool.eq_false_iff.2 hmark, Bool.false_or]
    split
    · next hpos =>
      obtain ⟨more, rfl⟩ := Nat.exists_eq_add_of_le' hpos
      have hcut : line.slice? (more + 1 - 1) line.byteSize = some ('\t' :: rest) := by
        refine Text.slice?_eq_some_iff.2 ⟨indent more, [], ?_, byteSize_indent more, ?_⟩
        · rw [hline, indent_succ_append, List.append_nil]
        · rw [hline, indent_succ_append, Text.byteSize_append]
      rw [hcut, Option.map_some, decide_eq_true hpos, Bool.true_and]
    · next hpos => rw [decide_eq_false hpos, Bool.false_and]

theorem ofLine?_eq_some_iff {mark : Mark} (hmark : ∀ count, mark ≠ elision count) {depth : Nat}
    {line : Text} : ofLine? depth line = some mark ↔ line = mark.row depth :=
  ⟨fun h => eq_row_of_ofLine? h hmark, fun h => h ▸ ofLine?_row hmark depth⟩

/-- What follows the token of a frame begins at a character. -/
theorem dropBytes?_of_frame {depth : Nat} {line rest : Text}
    (h : ofLine? depth line = some (frame rest)) : line.dropBytes? (depth + 4) = some rest := by
  have hline : line = indent depth ++ ('\t' :: atToken) ++ rest := by
    rw [eq_row_of_ofLine? h (by simp), row, List.append_assoc, List.cons_append]
  have hsize : Text.byteSize (indent depth ++ ('\t' :: atToken)) = depth + 4 := by
    rw [Text.byteSize_append, byteSize_indent]
    rfl
  rw [hline, ← hsize, Text.dropBytes?_append]

end Mark

namespace Descent
open Mark

theorem bind_after?_eq_some_iff {depth : Nat} {line token t : Text} :
    (line.after? (indent depth)).bind (·.after? token) = some t ↔
      line = indent depth ++ token ++ t := by
  simp only [Option.bind_eq_some_iff, Text.after?_eq_some_iff]
  constructor
  · rintro ⟨rest, rfl, rfl⟩
    rw [List.append_assoc]
  · rintro rfl
    exact ⟨token ++ t, List.append_assoc _ _ _, rfl⟩

/-- The frame behind the token is read where it stands in the line. -/
theorem takeFrame_of_frame {depth : Nat} {line rest : Text}
    (h : ofLine? depth line = some (.frame rest)) (cursor : Nat) (frames : List Frame) :
    takeFrame depth cursor line frames =
      match Frame.read rest with
      | .error e => .error (.refused (.malformedFrame cursor e))
      | .ok f => .ok (some (frames ++ [f])) := by
  have hline : line = indent depth ++ ('\t' :: atToken) ++ rest := by
    rw [(ofLine?_eq_some_iff (by simp)).1 h, row, List.append_assoc, List.cons_append]
  have hoffset : (indent depth).byteSize + Text.byteSize ('\t' :: atToken) = depth + 4 := by
    rw [byteSize_indent]
    rfl
  rw [takeFrame, bind_after?_eq_some_iff.2 hline, hoffset, Frame.readByPositionsAt?_eq_some,
    Frame.readAt, dropBytes?_of_frame h]
  dsimp only
  cases Frame.read rest <;> rfl

theorem takeFrame_of_not_frame {depth : Nat} {line : Text}
    (h : ∀ rest, ofLine? depth line ≠ some (.frame rest)) (cursor : Nat) (frames : List Frame) :
    takeFrame depth cursor line frames = .ok none := by
  rw [takeFrame]
  split
  · rfl
  · next rest hrest =>
    refine absurd ((ofLine?_eq_some_iff (by simp)).2 ?_) (h rest)
    rw [bind_after?_eq_some_iff.1 hrest, row, List.append_assoc, List.cons_append]

end Descent
end Stacktrace
