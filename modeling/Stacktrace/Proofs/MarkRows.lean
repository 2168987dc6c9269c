import Mathlib.Data.List.DropRight
import Stacktrace.Trace.Printer

/-!
# Rows and their marks

`Mark.row` is the row that bears a mark at a depth. A line that is no elision is the row of the mark
that it bears. At its own depth such a row bears its mark again, at a larger depth it bears none, and
it ends the message of a failure at either.
-/

namespace Stacktrace
namespace Mark

def row (depth : Nat) : Mark → Text
  | frame t => indent depth ++ '\t' :: (atToken ++ t)
  | elision count =>
    indent depth ++ '\t' :: ("... ".toList ++ Text.ofNat count ++ " more".toList)
  | suppressed header => indent depth ++ '\t' :: (suppressedToken ++ header)
  | circular t => indent depth ++ '\t' :: (circularToken ++ t)
  | causedBy header => indent depth ++ (causedByToken ++ header)

theorem row_suppressed (depth : Nat) (header : Text) :
    (suppressed header).row depth = indent depth ++ '\t' :: suppressedToken ++ header := by
  rw [row, List.append_assoc, List.cons_append]

theorem row_circular (depth : Nat) (t : Text) :
    (circular t).row depth = indent depth ++ '\t' :: circularToken ++ t := by
  rw [row, List.append_assoc, List.cons_append]

theorem row_causedBy (depth : Nat) (header : Text) :
    (causedBy header).row depth = indent depth ++ causedByToken ++ header := by
  rw [row, List.append_assoc]

@[simp]
theorem indent_zero : indent 0 = [] := rfl

theorem indent_succ (depth : Nat) : indent (depth + 1) = '\t' :: indent depth := rfl

theorem indent_succ_append (depth : Nat) (t : Text) :
    indent (depth + 1) ++ t = indent depth ++ '\t' :: t := by
  rw [indent, List.replicate_succ', List.append_assoc]
  rfl

theorem elided?_tab {t : Text} (h : t.head? = some '\t') : elided? ('\t' :: t) = elided? t := by
  rw [elided?, elided?, if_pos h, if_pos List.head?_cons, List.dropWhile_cons_of_pos (by simp)]

theorem head?_of_elided? {t : Text} {count : Nat} (h : elided? t = some count) :
    t.head? = some '\t' := by
  rw [elided?] at h
  split at h
  · assumption
  · simp at h

theorem elided?_indent_append {t : Text} {count : Nat} (h : elided? t = some count) (depth : Nat) :
    elided? (indent depth ++ t) = some count := by
  induction depth with
  | zero => exact h
  | succ depth ih =>
    rw [indent_succ, List.cons_append, elided?_tab (head?_of_elided? ih), ih]

theorem eq_indent_append (t : Text) :
    t = indent (t.takeWhile (· = '\t')).length ++ t.dropWhile (· = '\t') := by
  have htabs : t.takeWhile (· = '\t') = indent (t.takeWhile (· = '\t')).length :=
    List.eq_replicate_iff.2
      ⟨rfl, fun c hc => by simpa using List.all_eq_true.1 List.all_takeWhile c hc⟩
  rw [← htabs, List.takeWhile_append_dropWhile]

/-- What stands between the tabs and dots and the last word of an elision. -/
theorem eq_elision_iff {t digits : Text} :
    (t.head? = some '\t' ∧ (Text.after? (t.dropWhile (· = '\t')) "... ".toList).bind
      (·.before? " more".toList) = some digits) ↔
    ∃ tabs, t = indent (tabs + 1) ++ "... ".toList ++ digits ++ " more".toList := by
  simp only [Option.bind_eq_some_iff, Text.after?_eq_some_iff, Text.before?_eq_some_iff]
  constructor
  · rintro ⟨hhead, _, hbehind, rfl⟩
    obtain ⟨rest, rfl⟩ := List.head?_eq_some_iff.1 hhead
    rw [List.dropWhile_cons_of_pos (by simp)] at hbehind
    refine ⟨(rest.takeWhile (· = '\t')).length, ?_⟩
    rw [indent_succ, List.cons_append, List.cons_append, List.cons_append, List.append_assoc,
      List.append_assoc, ← hbehind, ← eq_indent_append]
  · rintro ⟨tabs, rfl⟩
    have htabs : ∀ c ∈ indent (tabs + 1), decide (c = '\t') = true := by simp [indent]
    refine ⟨by rw [indent_succ]; rfl, digits ++ " more".toList, ?_, rfl⟩
    rw [List.append_assoc, List.append_assoc, List.dropWhile_append_of_pos htabs]
    exact List.dropWhile_cons_of_neg (by decide)

/-- What a line that counts as an elision looks like. -/
theorem elided?_eq_some_iff {t : Text} {count : Nat} : elided? t = some count ↔
    ∃ tabs digits n, t = indent (tabs + 1) ++ "... ".toList ++ digits ++ " more".toList ∧
      Text.toNat? digits = some n ∧ count = min n maxElided := by
  rw [elided?, Option.ite_none_right_eq_some, ← Option.bind_assoc, Option.bind_eq_some_iff]
  constructor
  · rintro ⟨hhead, digits, hdigits, h⟩
    obtain ⟨n, hn, rfl⟩ := Option.map_eq_some_iff.1 h
    obtain ⟨tabs, ht⟩ := eq_elision_iff.1 ⟨hhead, hdigits⟩
    exact ⟨tabs, digits, n, ht, hn, rfl⟩
  · rintro ⟨tabs, digits, n, ht, hn, rfl⟩
    obtain ⟨hhead, hdigits⟩ := eq_elision_iff.2 ⟨tabs, ht⟩
    exact ⟨hhead, digits, hdigits, by rw [hn, Option.map_some]⟩

theorem after?_indent_append (depth more : Nat) (t : Text) :
    (indent depth ++ t).after? (indent (depth + more)) = t.after? (indent more) := by
  induction depth with
  | zero => rw [indent_zero, List.nil_append, Nat.zero_add]
  | succ depth ih =>
    rw [Nat.add_right_comm, indent_succ, indent_succ, List.cons_append, Text.after?, if_pos rfl, ih]

theorem ofLine?_indent_append (depth more : Nat) (t : Text) :
    ofLine? (depth + more) (indent depth ++ t) = ofLine? more t := by
  rw [ofLine?, after?_indent_append, ofLine?]

/-- A line that bears any mark but that of an elision is the row of its mark. -/
theorem eq_row_of_ofLine? {depth : Nat} {line : Text} {mark : Mark}
    (h : ofLine? depth line = some mark) (hmark : ∀ count, mark ≠ elision count) :
    line = mark.row depth := by
  obtain ⟨rest, hrest, hbears⟩ := Option.bind_eq_some_iff.1 h
  rw [Text.after?_eq_some_iff] at hrest
  subst hrest
  simp only [ofRest?, Option.orElse_eq_orElse, Option.orElse_eq_or, Option.or_eq_some_iff,
    Option.map_eq_some_iff, Text.after?_eq_some_iff] at hbears
  rcases hbears with ⟨t, rfl, rfl⟩ | ⟨-, hbears⟩
  · rfl
  rcases hbears with ⟨count, -, rfl⟩ | ⟨-, hbears⟩
  · exact absurd rfl (hmark count)
  rcases hbears with ⟨t, rfl, rfl⟩ | ⟨-, hbears⟩
  · rfl
  rcases hbears with ⟨t, rfl, rfl⟩ | ⟨-, t, rfl, rfl⟩
  · rfl
  · rfl

theorem elided?_of_ofLine? {depth count : Nat} {line : Text}
    (h : ofLine? depth line = some (elision count)) : elided? line = some count := by
  obtain ⟨rest, hrest, hbears⟩ := Option.bind_eq_some_iff.1 h
  rw [Text.after?_eq_some_iff] at hrest
  subst hrest
  have helided : rest.after? ('\t' :: atToken) = none ∧ elided? rest = some count := by
    simpa [ofRest?, Option.orElse_eq_orElse, Option.orElse_eq_or, Option.or_eq_some_iff] using hbears
  exact elided?_indent_append helided.2 depth

/-- A line that is no elision is the row of the mark that it bears, which is none of an elision. -/
theorem row_of_ofLine? {depth : Nat} {line : Text} {mark : Mark}
    (h : ofLine? depth line = some mark) (hline : elided? line = none) :
    line = mark.row depth ∧ ∀ count, mark ≠ elision count := by
  have hmark (count : Nat) : mark ≠ elision count := by
    rintro rfl
    rw [elided?_of_ofLine? h] at hline
    cases hline
  exact ⟨eq_row_of_ofLine? h hmark, hmark⟩

theorem ofRest?_of_elided? {rest : Text} {count : Nat} (h : elided? rest = some count) :
    ofRest? rest = some (elision count) := by
  have hframe : rest.after? ('\t' :: atToken) = none := by
    obtain ⟨tabs, digits, n, rfl, -⟩ := elided?_eq_some_iff.1 h
    cases tabs <;> rfl
  rw [ofRest?, hframe, h]
  rfl

theorem ofLine?_eq_elision_iff {depth count : Nat} {line : Text} :
    ofLine? depth line = some (elision count) ↔
      (line.after? (indent depth)).bind elided? = some count := by
  rw [ofLine?, Option.bind_eq_some_iff, Option.bind_eq_some_iff]
  refine exists_congr fun rest => and_congr_right fun _ => ⟨fun h => ?_, ofRest?_of_elided?⟩
  have hline : ofLine? 0 rest = some (elision count) := by
    rw [ofLine?, indent_zero, Text.after?_eq_some_iff.2 (List.nil_append rest).symm, Option.bind_some, h]
  exact elided?_of_ofLine? hline

/-- The tabs in front of an elision count for one. -/
theorem isSome_elided? (line : Text) : (elided? line).isSome =
    (1 ≤ (line.takeWhile (· = '\t')).length &&
      (elided? ('\t' :: line.dropWhile (· = '\t'))).isSome) := by
  by_cases hhead : line.head? = some '\t'
  · obtain ⟨t, rfl⟩ : ∃ t, line = '\t' :: t := by
      cases line with
      | nil => cases hhead
      | cons c t => exact ⟨t, by rw [Option.some.inj hhead]⟩
    have hdrop : List.dropWhile (· = '\t') ('\t' :: List.dropWhile (· = '\t') ('\t' :: t)) =
        List.dropWhile (· = '\t') ('\t' :: t) := by
      rw [List.dropWhile_cons_of_pos (by simp), List.dropWhile_cons_of_pos (by simp),
        List.dropWhile_idempotent]
    rw [elided?, elided?, if_pos hhead, if_pos List.head?_cons, hdrop]
    simp
  · have htabs : line.takeWhile (· = '\t') = [] := by
      cases line with
      | nil => rfl
      | cons c t => exact List.takeWhile_cons_of_neg (by simpa using hhead)
    rw [elided?, if_neg hhead, htabs]
    rfl

theorem endsMessage_indent_append {rest : Text} (hrest : rest.head? ≠ some '\t') (depth tabs : Nat) :
    endsMessage depth (indent tabs ++ rest) =
      ((1 ≤ tabs && tabs ≤ depth + 1 &&
          (rest.startsWith atToken || rest.startsWith suppressedToken ||
            rest.startsWith circularToken))
        || (tabs ≤ depth && rest.startsWith causedByToken)
        || (1 ≤ tabs && (elided? ('\t' :: rest)).isSome)) := by
  have htake : rest.takeWhile (· = '\t') = [] := by
    cases rest with
    | nil => rfl
    | cons c rest => exact List.takeWhile_cons_of_neg (by simpa using hrest)
  have hdrop : rest.dropWhile (· = '\t') = rest := by
    cases rest with
    | nil => rfl
    | cons c rest => exact List.dropWhile_cons_of_neg (by simpa using hrest)
  have htabs : ∀ c ∈ indent tabs, decide (c = '\t') = true := by simp [indent]
  rw [endsMessage, List.takeWhile_append_of_pos htabs, List.dropWhile_append_of_pos htabs, htake,
    hdrop, List.append_nil, indent, List.length_replicate]

theorem startsWith_append (token t : Text) : Text.startsWith (token ++ t) token = true :=
  Text.startsWith_iff.2 ⟨t, rfl⟩

/-! ## Rows that are written -/

section Written
variable {mark : Mark} (hmark : ∀ count, mark ≠ elision count)
include hmark

theorem ofLine?_row (depth : Nat) : ofLine? depth (mark.row depth) = some mark := by
  cases mark with
  | elision count => exact absurd rfl (hmark count)
  | frame t =>
    have hafter := Text.after?_append ('\t' :: atToken) t
    rw [row, ofLine?, Text.after?_append, Option.bind_some, ofRest?, ← List.cons_append, hafter]
    rfl
  | suppressed header =>
    have hafter := Text.after?_append ('\t' :: suppressedToken) header
    rw [row, ofLine?, Text.after?_append, Option.bind_some, ofRest?, ← List.cons_append, hafter]
    rfl
  | circular t =>
    have hafter := Text.after?_append ('\t' :: circularToken) t
    rw [row, ofLine?, Text.after?_append, Option.bind_some, ofRest?, ← List.cons_append, hafter]
    rfl
  | causedBy header =>
    rw [row, ofLine?, Text.after?_append, Option.bind_some, ofRest?, Text.after?_append causedByToken]
    rfl

theorem ofLine?_row_of_lt {depth deeper : Nat} (h : depth < deeper) :
    ofLine? deeper (mark.row depth) = none := by
  obtain ⟨more, rfl⟩ := Nat.exists_eq_add_of_lt h
  cases mark with
  | elision count => exact absurd rfl (hmark count)
  | _ =>
    rw [row, Nat.add_assoc, ofLine?_indent_append]
    cases more <;> rfl

theorem endsMessage_row_of_le {depth deeper : Nat} (h : depth ≤ deeper) :
    endsMessage deeper (mark.row depth) = true := by
  cases mark with
  | elision count => exact absurd rfl (hmark count)
  | causedBy header =>
    have hhead : (causedByToken ++ header).head? ≠ some '\t' := fun h => by cases h
    rw [row, endsMessage_indent_append hhead, startsWith_append, decide_eq_true h]
    simp only [Bool.and_self, Bool.or_true, Bool.true_or]
  | frame t =>
    have hhead : (atToken ++ t).head? ≠ some '\t' := fun h => by cases h
    rw [row, ← indent_succ_append, endsMessage_indent_append hhead, startsWith_append]
    simp only [Nat.le_add_left, Nat.add_le_add_iff_right, h, decide_true, Bool.and_self, Bool.true_or]
  | suppressed t =>
    have hhead : (suppressedToken ++ t).head? ≠ some '\t' := fun h => by cases h
    rw [row, ← indent_succ_append, endsMessage_indent_append hhead, startsWith_append]
    simp only [Nat.le_add_left, Nat.add_le_add_iff_right, h, decide_true, Bool.and_self, Bool.true_or,
      Bool.or_true]
  | circular t =>
    have hhead : (circularToken ++ t).head? ≠ some '\t' := fun h => by cases h
    rw [row, ← indent_succ_append, endsMessage_indent_append hhead, startsWith_append]
    simp only [Nat.le_add_left, Nat.add_le_add_iff_right, h, decide_true, Bool.and_self, Bool.or_true,
      Bool.true_or]

end Written

theorem endsMessage_of_ofLine? {depth k : Nat} {line : Text} {mark : Mark}
    (hmark : ofLine? k line = some mark) (hle : k ≤ depth) : endsMessage depth line = true := by
  cases hline : elided? line with
  | none =>
    obtain ⟨rfl, hnot⟩ := row_of_ofLine? hmark hline
    exact endsMessage_row_of_le hnot hle
  | some count =>
    rw [endsMessage, ← isSome_elided?, hline, Option.isSome_some, Bool.or_true]

end Mark

/-! ## Rows of failures -/

namespace Failure
variable {ι : Type}

theorem frameRow_eq_row (depth : Nat) (f : Frame) :
    frameRow depth f = (Mark.frame f.render).row depth := rfl

theorem suppressedRow_eq_row (depth : Nat) (f : Failure ι) :
    suppressedRow depth f = (Mark.suppressed f.displayText).row depth := rfl

theorem causeRow_eq_row (depth : Nat) (f : Failure ι) :
    causeRow depth f = (Mark.causedBy f.displayText).row depth :=
  List.append_assoc _ _ _

section Printed
variable [DecidableEq ι]

theorem lookup_eq_some {scope : Scope ι} {i : ι} {display : Text} (hmem : (i, display) ∈ scope)
    (hunique : ∀ entry ∈ scope, entry.1 = i → entry.2 = display) :
    scope.lookup i = some display := by
  have hsome : (scope.lookup i).isSome = true :=
    List.lookup_isSome_iff.2 ⟨(i, display), hmem, beq_self_eq_true i⟩
  obtain ⟨found, hfound⟩ := Option.isSome_iff_exists.1 hsome
  obtain ⟨before, after, hscope, -⟩ := List.lookup_eq_some_iff.1 hfound
  have hentry : (i, found) ∈ scope := by
    rw [hscope]
    exact List.mem_append_right _ List.mem_cons_self
  exact hfound.trans (congrArg some (hunique (i, found) hentry rfl))

theorem circularRow_eq_row {scope : Scope ι} {link : BackRef ι}
    (h : (scope.lookup link.target).getD link.display = link.display) (depth : Nat) :
    circularRow scope depth link = (Mark.circular (link.display ++ Mark.circularClose)).row depth := by
  rw [circularRow, h, Mark.row, List.append_assoc]

theorem bodyRows_eq (scope : Scope ι) (depth : Nat) (f : Failure ι) :
    f.bodyRows scope depth = f.frames.map (frameRow depth) ++
      (f.suppressed.flatMap fun s =>
        suppressedRow depth s :: s.bodyRows (f.scopeEntry :: scope) (depth + 1)) ++
      causeRows (f.scopeEntry :: scope) depth f.cause := by
  cases f
  rw [bodyRows, suppressedRows_eq_flatMap]

end Printed
end Failure
end Stacktrace
