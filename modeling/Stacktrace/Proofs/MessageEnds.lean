import Stacktrace.Proofs.ErrorLines
import Stacktrace.Proofs.OpenStack

/-!
# Where a message ends

A line ends the message of a failure if and only if, at the depth of the failure or at a smaller
one, it begins the way a line with a mark does (`endsMessage_iff_begins`). So a line that an open
failure can take by its mark goes on with no message that is being read, neither with its own nor
with that of a failure that hangs off it.
-/

namespace Stacktrace

namespace Mark

/-- Whether a text, without the tabs of its depth, begins as a line with a mark does. -/
def Begins (rest : Text) : Prop :=
  rest.startsWith ('\t' :: atToken) ∨ rest.startsWith ('\t' :: suppressedToken) ∨
    rest.startsWith ('\t' :: circularToken) ∨ rest.startsWith causedByToken ∨ (elided? rest).isSome

instance (rest : Text) : Decidable (Begins rest) := inferInstanceAs (Decidable (_ ∨ _))

theorem startsWith_cons_cons (c : Char) (t token : Text) :
    Text.startsWith (c :: t) (c :: token) = t.startsWith token := by
  rw [Text.startsWith, Text.startsWith, Text.after?, if_pos rfl]

theorem begins_iff (rest : Text) : Begins rest ↔ (ofRest? rest).isSome := by
  simp only [Begins, ofRest?, Option.orElse_eq_orElse, Option.orElse_eq_or, Option.isSome_or,
    Option.isSome_map, Text.startsWith, Bool.or_eq_true]
  tauto

theorem exists_begins_of_endsMessage {depth : Nat} {line : Text} (h : endsMessage depth line = true) :
    ∃ k ≤ depth, ∃ rest, line = indent k ++ rest ∧ Begins rest := by
  rw [endsMessage, ← isSome_elided?] at h
  simp only [Bool.or_eq_true, Bool.and_eq_true, decide_eq_true_eq] at h
  have hline := eq_indent_append line
  rcases h with (⟨⟨hpos, hle⟩, htoken⟩ | ⟨hle, htoken⟩) | helided
  · -- such a token has a tab of its own, so the mark stands one tab to the left
    obtain ⟨k, hk⟩ := Nat.exists_eq_add_of_le' hpos
    rw [hk] at hline hle
    refine ⟨k, by omega, _, hline.trans (indent_succ_append k _), ?_⟩
    simp only [Begins, startsWith_cons_cons]
    tauto
  · exact ⟨_, hle, _, hline, .inr (.inr (.inr (.inl htoken)))⟩
  · exact ⟨0, Nat.zero_le depth, line, rfl, .inr (.inr (.inr (.inr helided)))⟩

end Mark

namespace ParserState
open Mark

theorem depth_le_of_stacked {f : OpenFailure} {outer : List OpenFailure}
    (h : Stacked OpenFailure.Sound (f :: outer)) : ∀ g ∈ outer, g.depth ≤ f.depth := by
  induction outer generalizing f with
  | nil => simp
  | cons parent outer ih =>
    have hparent : parent.depth ≤ f.depth := by
      rcases h.1.position.2 with ⟨-, hdepth⟩ | ⟨-, hdepth⟩ <;> omega
    intro g hg
    rcases List.mem_cons.1 hg with rfl | hg
    · exact hparent
    · exact Nat.le_trans (ih h.2 g hg) hparent

end ParserState

open Mark ParserState in
/-- A line ends the message of a failure at a depth if and only if it begins at that depth or at a
smaller one as a line with a mark does. So it does at every larger depth, and so does each line that
a failure at that depth or at a smaller one takes by its mark, or refuses for it. The failures that
one hangs off stand at no larger depths. -/
theorem endsMessage_iff_begins (depth : Nat) (line : Text) :
    (endsMessage depth line = true ↔ ∃ k ≤ depth, ∃ rest, line = indent k ++ rest ∧ Begins rest) ∧
      (∀ deeper, depth ≤ deeper → endsMessage depth line = true → endsMessage deeper line = true) ∧
      (∀ (codec : Codec) (i : Nat) (s : ParserState) (result : Except DecodeError ParserState),
        s.current.depth ≤ depth →
        (ofLine? s.current.depth line).bind (s.takeMark? codec i) = some result →
          endsMessage depth line = true) ∧
      ∀ (codec : Codec) (first : Nat) (header : Text) (lines : List Text) (s : ParserState),
        run codec 1 lines ⟨.ofHeader codec 0 .root first header, [], first + 1⟩ = .ok s →
        s.current.depth = depth → ∀ f ∈ s.parents, f.depth ≤ depth := by
  have hiff (d : Nat) :
      endsMessage d line = true ↔ ∃ k ≤ d, ∃ rest, line = indent k ++ rest ∧ Begins rest := by
    refine ⟨exists_begins_of_endsMessage, ?_⟩
    rintro ⟨k, hle, rest, rfl, hbegins⟩
    obtain ⟨mark, hmark⟩ := Option.isSome_iff_exists.1 ((begins_iff rest).1 hbegins)
    have hline : ofLine? k (indent k ++ rest) = some mark := by
      rw [ofLine?, Text.after?_append, Option.bind_some, hmark]
    exact endsMessage_of_ofLine? hline hle
  refine ⟨hiff depth, ?_, ?_, ?_⟩
  · intro deeper hle hends
    obtain ⟨k, hk, hbegins⟩ := (hiff depth).1 hends
    exact (hiff deeper).2 ⟨k, Nat.le_trans hk hle, hbegins⟩
  · intro codec i s result hle htakes
    obtain ⟨mark, hmark, -⟩ := Option.bind_eq_some_iff.1 htakes
    exact endsMessage_of_ofLine? hmark hle
  · intro codec first header lines s hrun hdepth f hf
    have hsound : s.Sound first := (sound_invariant codec first).of_run
      (show run codec [header].length lines _ = .ok s from hrun) (sound_start codec first header)
    exact hdepth ▸ depth_le_of_stacked hsound.stack f hf

/-- A tab too many keeps a circular reference from ending a message, but not an elision. -/
theorem endsMessage_one_of_begins :
    (∃ k ≤ 1, ∃ rest, "\t\t[CIRCULAR REFERENCE:A]".toList = Mark.indent k ++ rest ∧
      Mark.Begins rest) ∧
    Mark.endsMessage 1 "\t\t[CIRCULAR REFERENCE:A]".toList = true ∧
    Mark.endsMessage 4 "\t\t[CIRCULAR REFERENCE:A]".toList = true ∧
    Mark.endsMessage 0 "\t\t[CIRCULAR REFERENCE:A]".toList = false ∧
    Mark.endsMessage 0 "\t\t\t... 007 more".toList = true := by
  have hbegins : ∃ k ≤ 1, ∃ rest, "\t\t[CIRCULAR REFERENCE:A]".toList = Mark.indent k ++ rest ∧
      Mark.Begins rest := ⟨1, Nat.le_refl 1, "\t[CIRCULAR REFERENCE:A]".toList, rfl, by decide⟩
  have hends := (endsMessage_iff_begins 1 _).1.2 hbegins
  exact ⟨hbegins, hends, (endsMessage_iff_begins 1 _).2.1 4 (by decide) hends, by decide, by decide⟩

end Stacktrace
