import Mathlib.Data.List.Basic
import Stacktrace.Text.Lines

/-!
# Rows and lines

Rows that are written one after the other are the lines of the text (`lines_ofRows`). A text with
line ends in it takes more than one row; `joined` puts such a text together the way a reader does,
one line after the other, and `pieces` takes it apart.
-/

namespace Stacktrace.Text

/-- Whether a terminator is one of the two that end a line when they are read. -/
def EndsLine (terminator : Text) : Prop := terminator = ['\n'] ∨ terminator = ['\r', '\n']

/-- Whether a row that is followed by the terminator is read as it is. -/
def RowFor (terminator row : Text) : Prop :=
  '\n' ∉ row ∧ (terminator = ['\n'] → row.getLast? ≠ some '\r')

/-- Whether a text has no line end in it, not even a part of one. -/
def Plain (t : Text) : Prop := '\r' ∉ t ∧ '\n' ∉ t

instance (terminator : Text) : Decidable (EndsLine terminator) :=
  inferInstanceAs (Decidable (_ ∨ _))

instance (terminator row : Text) : Decidable (RowFor terminator row) :=
  inferInstanceAs (Decidable (_ ∧ _))

instance (t : Text) : Decidable (Plain t) := inferInstanceAs (Decidable (_ ∧ _))

theorem plain_append {a b : Text} : Plain (a ++ b) ↔ Plain a ∧ Plain b := by
  simp only [Plain, List.mem_append, not_or]
  exact and_and_and_comm

theorem Plain.rowFor {row : Text} (h : Plain row) (terminator : Text) : RowFor terminator row := by
  refine ⟨h.2, fun _ hlast => h.1 ?_⟩
  exact List.mem_of_getLast? hlast

theorem dropReturn_append_return (row : Text) : dropReturn (row ++ ['\r']) = row := by
  rw [dropReturn, before?_eq_some_iff.2 rfl, Option.getD_some]

theorem dropReturn_eq_self {row : Text} (h : row.getLast? ≠ some '\r') : dropReturn row = row := by
  rw [dropReturn]
  cases hrow : row.before? ['\r'] with
  | none => rfl
  | some rest =>
    rw [before?_eq_some_iff] at hrow
    simp [hrow] at h

theorem dropReturn_of_plain {t : Text} (h : Plain t) : dropReturn t = t :=
  dropReturn_eq_self (h.rowFor ['\n'] |>.2 rfl)

theorem lines_append_lineFeed {row : Text} (h : '\n' ∉ row) (rest : Text) :
    (row ++ '\n' :: rest).lines = dropReturn row :: if rest = [] then [] else rest.lines := by
  rw [lines, List.splitOn_append_cons_self_of_not_mem h]
  cases rest with
  | nil => simp
  | cons c rest =>
    have hlast : (row ++ '\n' :: c :: rest).getLast? = (c :: rest).getLast? := by
      rw [List.append_cons, List.getLast?_append_of_ne_nil _ (List.cons_ne_nil c rest)]
    rw [hlast, if_neg (List.cons_ne_nil c rest), lines]
    split
    · rw [List.dropLast_cons_of_ne_nil (List.splitOn_ne_nil _ _), List.map_cons]
    · rw [List.map_cons]

theorem lines_ne_nil (t : Text) : t.lines ≠ [] := by
  by_cases hmem : '\n' ∈ t
  · obtain ⟨row, rest, rfl, hrow⟩ := List.eq_append_cons_of_mem hmem
    rw [lines_append_lineFeed hrow]
    exact List.cons_ne_nil _ _
  · have hlast : t.getLast? ≠ some '\n' := fun hlast => hmem (List.mem_of_getLast? hlast)
    rw [lines, if_neg hlast, List.splitOn_eq_singleton hmem]
    exact List.cons_ne_nil _ _

theorem lines_append_terminator {terminator row : Text} (hterminator : EndsLine terminator)
    (hrow : RowFor terminator row) (rest : Text) :
    (row ++ terminator ++ rest).lines = row :: if rest = [] then [] else rest.lines := by
  rcases hterminator with rfl | rfl
  · rw [List.append_assoc, List.singleton_append, lines_append_lineFeed hrow.1,
      dropReturn_eq_self (hrow.2 rfl)]
  · have hreturn : '\n' ∉ row ++ ['\r'] := by simp [hrow.1]
    have hparts : row ++ ['\r', '\n'] ++ rest = row ++ ['\r'] ++ '\n' :: rest := by simp
    rw [hparts, lines_append_lineFeed hreturn, dropReturn_append_return]

theorem ofRows_eq_nil_iff {terminator : Text} (hterminator : EndsLine terminator)
    {rows : List Text} : ofRows terminator rows = [] ↔ rows = [] := by
  rcases hterminator with rfl | rfl <;> cases rows <;> simp

theorem lines_ofRows {terminator : Text} (hterminator : EndsLine terminator) {rows : List Text}
    (hne : rows ≠ []) (hrows : ∀ row ∈ rows, RowFor terminator row) :
    (ofRows terminator rows).lines = rows := by
  induction rows with
  | nil => exact absurd rfl hne
  | cons row rows ih =>
    rw [ofRows_cons, lines_append_terminator hterminator (hrows row List.mem_cons_self)]
    by_cases hrest : rows = []
    · rw [if_pos ((ofRows_eq_nil_iff hterminator).2 hrest), hrest]
    · rw [if_neg (mt (ofRows_eq_nil_iff hterminator).1 hrest),
        ih hrest fun row hrow => hrows row (List.mem_cons_of_mem _ hrow)]

theorem lineFeed_not_mem_of_mem_splitOn {t piece : Text} (h : piece ∈ t.splitOn '\n') :
    '\n' ∉ piece := by
  by_cases hmem : '\n' ∈ t
  · obtain ⟨row, rest, rfl, hrow⟩ := List.eq_append_cons_of_mem hmem
    rw [List.splitOn_append_cons_self_of_not_mem hrow, List.mem_cons] at h
    rcases h with rfl | h
    · exact hrow
    · exact lineFeed_not_mem_of_mem_splitOn h
  · rw [List.splitOn_eq_singleton hmem, List.mem_singleton] at h
    exact h ▸ hmem
termination_by t.length

theorem dropReturn_subset (row : Text) : dropReturn row ⊆ row := by
  rw [dropReturn]
  cases h : row.before? ['\r'] with
  | none => exact List.Subset.refl row
  | some rest =>
    rw [before?_eq_some_iff.1 h, Option.getD_some]
    exact List.subset_append_left rest _

theorem lineFeed_not_mem_of_mem_lines {t line : Text} (h : line ∈ t.lines) : '\n' ∉ line := by
  obtain ⟨piece, hpiece, rfl⟩ := List.mem_map.1 h
  have hsplit : piece ∈ t.splitOn '\n' := by
    split at hpiece
    · exact List.dropLast_subset _ hpiece
    · exact hpiece
  exact fun hmem => lineFeed_not_mem_of_mem_splitOn hsplit (dropReturn_subset piece hmem)

/-! ## Texts of more than one line -/

/-- A first line and more lines, with the terminator between each two. -/
def joined (terminator first : Text) (more : List Text) : Text :=
  more.foldl (fun t line => t ++ terminator ++ line) first

@[simp]
theorem joined_nil (terminator first : Text) : joined terminator first [] = first := rfl

@[simp]
theorem joined_cons (terminator first line : Text) (more : List Text) :
    joined terminator first (line :: more) = joined terminator (first ++ terminator ++ line) more :=
  rfl

theorem joined_append (terminator first : Text) (more last : List Text) :
    joined terminator first (more ++ last) = joined terminator (joined terminator first more) last :=
  List.foldl_append

theorem append_joined (terminator start first : Text) (more : List Text) :
    start ++ joined terminator first more = joined terminator (start ++ first) more := by
  induction more generalizing first with
  | nil => rfl
  | cons line more ih => simp only [joined_cons, ih, List.append_assoc]

theorem intercalate_cons_eq_joined (terminator first : Text) (more : List Text) :
    terminator.intercalate (first :: more) = joined terminator first more := by
  induction more generalizing first with
  | nil => simp
  | cons line more ih =>
    rw [List.intercalate_cons_cons, ih, joined_cons, append_joined]

theorem joined_append_terminator (terminator first : Text) (more : List Text) :
    joined terminator first more ++ terminator = ofRows terminator (first :: more) := by
  induction more generalizing first with
  | nil => simp
  | cons line more ih => rw [joined_cons, ih, ofRows_cons, ofRows_cons, ofRows_cons,
      List.append_assoc (first ++ terminator), List.append_assoc (first ++ terminator)]

def pieces (t : Text) : List Text := (t.splitOn '\n').map dropReturn

theorem pieces_of_plain {t : Text} (h : Plain t) : t.pieces = [t] := by
  rw [pieces, List.splitOn_eq_singleton h.2, List.map_singleton, dropReturn_of_plain h]

theorem pieces_append_terminator {terminator first : Text} (hterminator : EndsLine terminator)
    (hfirst : Plain first) (rest : Text) :
    (first ++ terminator ++ rest).pieces = first :: rest.pieces := by
  rcases hterminator with rfl | rfl
  · rw [List.append_assoc, List.singleton_append, pieces,
      List.splitOn_append_cons_self_of_not_mem hfirst.2, List.map_cons, dropReturn_of_plain hfirst]
    rfl
  · have hreturn : '\n' ∉ first ++ ['\r'] := by simp [hfirst.2]
    have hparts : first ++ ['\r', '\n'] ++ rest = first ++ ['\r'] ++ '\n' :: rest := by simp
    rw [hparts, pieces, List.splitOn_append_cons_self_of_not_mem hreturn, List.map_cons,
      dropReturn_append_return]
    rfl

theorem pieces_joined {terminator first : Text} (hterminator : EndsLine terminator)
    {more : List Text} (hplain : ∀ line ∈ first :: more, Plain line) :
    (joined terminator first more).pieces = first :: more := by
  induction more generalizing first with
  | nil => exact pieces_of_plain (hplain first List.mem_cons_self)
  | cons line more ih =>
    rw [joined_cons, ← append_joined,
      pieces_append_terminator hterminator (hplain first List.mem_cons_self),
      ih fun line hline => hplain line (List.mem_cons_of_mem _ hline)]

theorem pieces_append_joined {terminator start first : Text} (hterminator : EndsLine terminator)
    (hstart : Plain start) {more : List Text} (hplain : ∀ line ∈ first :: more, Plain line) :
    (start ++ joined terminator first more).pieces = (start ++ first) :: more := by
  obtain ⟨hfirst, hmore⟩ := List.forall_mem_cons.1 hplain
  rw [append_joined]
  refine pieces_joined hterminator (List.forall_mem_cons.2 ⟨?_, hmore⟩)
  exact plain_append.2 ⟨hstart, hfirst⟩

def Joined (terminator t : Text) : Prop :=
  ∃ first more, (∀ line ∈ first :: more, Plain line) ∧ t = joined terminator first more

namespace Joined
variable {terminator : Text}

theorem of_plain {t : Text} (h : Plain t) : Joined terminator t := ⟨t, [], by simpa using h, rfl⟩

theorem plain_append {start t : Text} (hstart : Plain start) (h : Joined terminator t) :
    Joined terminator (start ++ t) := by
  obtain ⟨first, more, hplain, rfl⟩ := h
  refine ⟨start ++ first, more, ?_, append_joined _ _ _ _⟩
  intro line hline
  rcases List.mem_cons.1 hline with rfl | hline
  · exact Text.plain_append.2 ⟨hstart, hplain first List.mem_cons_self⟩
  · exact hplain line (List.mem_cons_of_mem _ hline)

theorem append_plain {t last : Text} (h : Joined terminator t) (hlast : Plain last) :
    Joined terminator (t ++ last) := by
  obtain ⟨first, more, hplain, rfl⟩ := h
  rw [List.forall_mem_cons] at hplain
  rcases more.eq_nil_or_concat' with rfl | ⟨more, line, rfl⟩
  · exact of_plain (Text.plain_append.2 ⟨hplain.1, hlast⟩)
  · refine ⟨first, more ++ [line ++ last], ?_, ?_⟩
    · intro l hl
      simp only [List.mem_cons, List.mem_append, List.not_mem_nil, or_false] at hl hplain
      rcases hl with rfl | hl | rfl
      · exact hplain.1
      · exact hplain.2 l (.inl hl)
      · exact Text.plain_append.2 ⟨hplain.2 line (.inr rfl), hlast⟩
    · simp [joined_append]

theorem plain_of_mem_pieces {t line : Text} (hterminator : EndsLine terminator)
    (h : Joined terminator t) (hline : line ∈ t.pieces) : Plain line := by
  obtain ⟨first, more, hplain, rfl⟩ := h
  rw [pieces_joined hterminator hplain] at hline
  exact hplain line hline

theorem ofRows_pieces {t : Text} (hterminator : EndsLine terminator) (h : Joined terminator t) :
    ofRows terminator t.pieces = t ++ terminator := by
  obtain ⟨first, more, hplain, rfl⟩ := h
  rw [pieces_joined hterminator hplain, joined_append_terminator]

end Joined

theorem lines_ofRows_of_joined {terminator : Text} (hterminator : EndsLine terminator)
    {rows : List Text} (hne : rows ≠ []) (hrows : ∀ row ∈ rows, Joined terminator row) :
    (ofRows terminator rows).lines = rows.flatMap pieces := by
  have hpieces : ofRows terminator rows = ofRows terminator (rows.flatMap pieces) := by
    rw [ofRows, ofRows, List.flatMap_assoc]
    refine List.flatMap_congr ?_
    intro row hrow
    exact ((hrows row hrow).ofRows_pieces hterminator).symm
  rw [hpieces]
  refine lines_ofRows hterminator ?_ ?_
  · obtain ⟨row, hrow⟩ := List.exists_mem_of_ne_nil rows hne
    intro hnil
    have hrowNil := List.flatMap_eq_nil_iff.1 hnil row hrow
    simp [pieces] at hrowNil
  · intro line hline
    obtain ⟨row, hrow, hline⟩ := List.mem_flatMap.1 hline
    exact ((hrows row hrow).plain_of_mem_pieces hterminator hline).rowFor terminator

end Stacktrace.Text
