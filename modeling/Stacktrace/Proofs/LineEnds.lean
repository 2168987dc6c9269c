import Stacktrace.Proofs.Recasts
import Stacktrace.Proofs.Renaming
import Stacktrace.Proofs.TextLines

/-!
# Texts with the same lines

A text comes from some lines when each of them is ended by a line feed, with a carriage return in
front of it or not, and the last one, unless it is empty, may do without. The lines of such a text
are these lines (`Text.Ended.lines_eq`). The number of the first failure decides how a graph that is
read is numbered and nothing else (`Codec.ofLines_add`). So all texts that come from the same lines
give the same graph, each numbered on its own, or fail in the same way (`decodeFrom_of_ended`).
-/

namespace Stacktrace

namespace Text

inductive Ended : List Text → Text → Prop
  | nil : Ended [] []
  | last {line : Text} (ne : line ≠ []) : Ended [line] line
  | cons {line ending : Text} {lines : List Text} {rest : Text} (ends : EndsLine ending)
      (rest_ended : Ended lines rest) : Ended (line :: lines) (line ++ ending ++ rest)

theorem ended_ofRows {terminator : Text} (hterminator : EndsLine terminator) (rows : List Text) :
    Ended rows (ofRows terminator rows) := by
  induction rows with
  | nil => exact .nil
  | cons row rows ih => exact .cons hterminator ih

namespace Ended
variable {lines : List Text} {t : Text}

theorem eq_nil_iff (h : Ended lines t) : t = [] ↔ lines = [] := by
  cases h with
  | nil => simp
  | last ne => simp [ne]
  | cons ends _ => rcases ends with rfl | rfl <;> simp

theorem lines_eq (h : Ended lines t) (hne : lines ≠ [])
    (hlines : ∀ line ∈ lines, '\n' ∉ line ∧ line.getLast? ≠ some '\r') : t.lines = lines := by
  induction h with
  | nil => exact absurd rfl hne
  | @last line ne =>
    obtain ⟨hfeed, hreturn⟩ := hlines line List.mem_cons_self
    have hlast : line.getLast? ≠ some '\n' := fun hlast => hfeed (List.mem_of_getLast? hlast)
    rw [Text.lines, if_neg hlast, List.splitOn_eq_singleton hfeed, List.map_singleton,
      dropReturn_eq_self hreturn]
  | @cons line ending lines rest ends hrest ih =>
    obtain ⟨⟨hfeed, hreturn⟩, hlines⟩ := List.forall_mem_cons.1 hlines
    rw [lines_append_terminator ends ⟨hfeed, fun _ => hreturn⟩]
    by_cases hnil : lines = []
    · rw [if_pos (hrest.eq_nil_iff.2 hnil), hnil]
    · rw [if_neg (mt hrest.eq_nil_iff.1 hnil), ih hnil hlines]

end Ended
end Text

def Recast.rename (ρ : Nat → Nat) : Recast where
  node := Failure.rename ρ
  cause := Failure.renameCause ρ
  id := ρ
  origin _ origin := origin
  node_eq := Failure.rename_eq ρ
  cause_owned _ := rfl
  cause_backRef _ := rfl

namespace Codec
variable (codec : Codec)

theorem fits_rename (ρ : Nat → Nat) (hρ : ∀ id, ρ (id + 1) = ρ id + 1) :
    (Recast.rename ρ).Fits codec codec fun _ => True where
  config_eq := rfl
  id_succ := hρ
  ofHeader _ _ _ _ := rfl
  displayText_iff {_ _ _} _ _ f _ := by
    rw [Recast.rename, Failure.displayText_rename]

theorem ofLines_add (k first : Nat) (lines : List Text) :
    codec.ofLines (k + first) lines = (codec.ofLines first lines).map (Failure.rename (k + ·)) :=
  ofLines_recast (codec.fits_rename (k + ·) fun _ => rfl) fun _ _ _ _ _ _ _ => trivial

theorem decodeFrom_eq_ofLines {lines : List Text} {t : Text} (ht : Text.Ended lines t)
    (hlines : ∀ line ∈ lines, '\n' ∉ line ∧ line.getLast? ≠ some '\r') (first : Nat) :
    codec.decodeFrom first t = codec.ofLines first lines := by
  rw [decodeFrom]
  by_cases hnil : lines = []
  · rw [ht.eq_nil_iff.2 hnil, hnil]
    rfl
  · rw [ht.lines_eq hnil hlines]

end Codec

/-- All texts that come from the same lines have one outcome, up to the numbers of the failures. -/
theorem decodeFrom_of_ended (codec : Codec) {lines : List Text}
    (hlines : ∀ line ∈ lines, '\n' ∉ line ∧ line.getLast? ≠ some '\r') {t t' : Text}
    (ht : Text.Ended lines t) (ht' : Text.Ended lines t') (first first' : Nat) :
    codec.decodeFrom first t = (codec.ofLines 0 lines).map (Failure.rename (first + ·)) ∧
      codec.decodeFrom first' t' = (codec.ofLines 0 lines).map (Failure.rename (first' + ·)) := by
  rw [codec.decodeFrom_eq_ofLines ht hlines, codec.decodeFrom_eq_ofLines ht' hlines]
  exact ⟨codec.ofLines_add first 0 lines, codec.ofLines_add first' 0 lines⟩

/-! A message and a link to its failure that both go over a line end. -/

def brokenLines : List Text :=
  ["a.Outer: in two".toList, "lines".toList, "\tSuppressed: b.Beside".toList,
    "\t\t[CIRCULAR REFERENCE:a.Outer: in two".toList, "lines]".toList]

def broken : Failure Nat :=
  let beside : Failure Nat :=
    { Failure.ofType 1 "b.Beside".toList with
      cause := .backRef ⟨0, "a.Outer: in two\nlines".toList⟩ }
  { Failure.ofType 0 "a.Outer".toList with
    message := some "in two\nlines".toList, suppressed := [beside] }

/-- The lines with ends of both kinds and no end after the last one. -/
def brokenText : Text :=
  "a.Outer: in two".toList ++ ['\r', '\n'] ++ ("lines".toList ++ ['\n'] ++
    ("\tSuppressed: b.Beside".toList ++ ['\r', '\n'] ++
      ("\t\t[CIRCULAR REFERENCE:a.Outer: in two".toList ++ ['\r', '\n'] ++ "lines]".toList)))

theorem decodeFrom_brokenText : Codec.ofLines {} 0 brokenLines = .ok broken ∧
    (∀ line ∈ brokenLines, '\n' ∉ line ∧ line.getLast? ≠ some '\r') ∧
    Text.Ended brokenLines brokenText ∧ Text.Ended brokenLines (Text.ofRows ['\n'] brokenLines) ∧
    Codec.decodeFrom {} 3 brokenText =
      (Codec.ofLines {} 0 brokenLines).map (Failure.rename (3 + ·)) ∧
    Codec.decodeFrom {} 7 (Text.ofRows ['\n'] brokenLines) =
      (Codec.ofLines {} 0 brokenLines).map (Failure.rename (7 + ·)) := by
  have hlines : ∀ line ∈ brokenLines, '\n' ∉ line ∧ line.getLast? ≠ some '\r' := by decide
  have hmixed : Text.Ended brokenLines brokenText :=
    .cons (.inr rfl) (.cons (.inl rfl) (.cons (.inr rfl) (.cons (.inr rfl) (.last (by decide)))))
  have hwritten : Text.Ended brokenLines (Text.ofRows ['\n'] brokenLines) :=
    Text.ended_ofRows (.inl rfl) brokenLines
  exact ⟨rfl, hlines, hmixed, hwritten, decodeFrom_of_ended {} hlines hmixed hwritten 3 7⟩

end Stacktrace
