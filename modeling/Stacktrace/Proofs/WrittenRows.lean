import Stacktrace.Trace.Printer

/-!
# Rows that are written with a table of texts

A graph is written with one table of display texts, which is changed on the way into a failure and
changed back on the way out. As every failure leaves the table as it found it, what the table holds
for an identity is always what the failures on the way down from the root say: the text of the
innermost with that identity. So the rows are the ones that are given by recursion with these
failures in scope (`write_eq_rows`), whether or not identities are shared and links are current.
-/

namespace Stacktrace
namespace Failure
variable {ι : Type} [DecidableEq ι]

/-- The rows of all that hangs off a failure. -/
def relationRows (scope : Scope ι) (depth : Nat) (f : Failure ι) : List Text :=
  suppressedRows (f.scopeEntry :: scope) depth f.suppressed ++
    causeRows (f.scopeEntry :: scope) depth f.cause

theorem bodyRows_eq_append (scope : Scope ι) (depth : Nat) (f : Failure ι) :
    f.bodyRows scope depth = f.frames.map (frameRow depth) ++ f.relationRows scope depth := by
  cases f
  rw [bodyRows, List.append_assoc]
  rfl

/-- Whether what hangs off a failure is written as it is with `scope` whenever the table holds the
same texts, and the table is left as it was. -/
def WritesRows (f : Failure ι) : Prop :=
  ∀ (depth : Nat) (opened : OpenTexts ι) (scope : Scope ι),
    (∀ i, opened.lookup i = scope.lookup i) →
      f.writeRelations depth opened = (f.relationRows scope depth, opened)

theorem circularRow_congr {scope other : Scope ι} (h : ∀ i, scope.lookup i = other.lookup i)
    (depth : Nat) (link : BackRef ι) :
    circularRow scope depth link = circularRow other depth link := by
  rw [circularRow, circularRow, h]

section Relations
variable {opened : OpenTexts ι} {scope : Scope ι} (hscope : ∀ i, opened.lookup i = scope.lookup i)
include hscope

theorem writeSuppressed_eq (depth : Nat) {fs : List (Failure ι)} (hfs : ∀ f ∈ fs, f.WritesRows) :
    writeSuppressed depth fs opened = (suppressedRows scope depth fs, opened) := by
  induction fs with
  | nil => rfl
  | cons f fs ih =>
    obtain ⟨hf, hfs⟩ := List.forall_mem_cons.1 hfs
    rw [writeSuppressed, hf (depth + 1) opened scope hscope]
    simp only [ih hfs]
    rw [suppressedRows, bodyRows_eq_append]

theorem writeCause_eq (depth : Nat) {cause : Cause ι (Failure ι)}
    (hcause : ∀ c, cause = .owned c → c.WritesRows) :
    writeCause depth cause opened = (causeRows scope depth cause, opened) := by
  cases cause with
  | none => rfl
  | owned c =>
    rw [writeCause, hcause c rfl depth opened scope hscope, causeRows, bodyRows_eq_append]
  | backRef link => rw [writeCause, causeRows, circularRow_congr hscope]

end Relations

theorem writesRows (f : Failure ι) : f.WritesRows := by
  induction f with
  | node f ihSuppressed ihCause =>
    intro depth opened scope hscope
    have hinside (i : ι) : (opened.put f.id f.displayText).2.lookup i =
        List.lookup i (f.scopeEntry :: scope) := by
      rw [OpenTexts.lookup_put, scopeEntry, List.lookup_cons, List.lookup_cons, hscope]
    have hrows : f.writeRelations depth opened =
        (f.relationRows scope depth,
          (opened.put f.id f.displayText).2.leave f.id (opened.put f.id f.displayText).1) := by
      have hsuppressed := writeSuppressed_eq hinside depth ihSuppressed
      have hcause := writeCause_eq hinside depth ihCause
      obtain ⟨id, typeName, message, frames, origin, suppressed, cause⟩ := f
      rw [writeRelations]
      simp only [hsuppressed, hcause]
      rfl
    rw [hrows, OpenTexts.leave_put]

theorem write_eq_rows (f : Failure ι) : f.write = f.rows := by
  rw [write, rows, f.writesRows 0 [] [] fun _ => rfl, bodyRows_eq_append]

theorem print_eq_ofRows (config : Config) (f : Failure ι) :
    f.print config = Text.ofRows config.terminator f.rows := by
  rw [print, write_eq_rows]

end Failure

/-- A graph is written with the display texts of the failures on the way down to each link, and
every failure leaves the table of texts as it found it. -/
theorem encode_eq_ofRows_rows {ι : Type} [DecidableEq ι] (codec : Codec) (g : Failure ι) :
    codec.encode g = Text.ofRows codec.config.terminator g.rows ∧
      ∀ (f : Failure ι) (depth : Nat) (opened : OpenTexts ι),
        (f.writeRelations depth opened).2 = opened := by
  refine ⟨g.print_eq_ofRows codec.config, ?_⟩
  intro f depth opened
  rw [f.writesRows depth opened opened fun _ => rfl]

/-! A clone that hangs off its original takes its place in the table while it is written. -/

example :
    let clone : Failure Nat := { Failure.ofType 7 ['B'] with cause := .backRef ⟨7, ['C']⟩ }
    let original : Failure Nat :=
      { Failure.ofType 7 ['A'] with suppressed := [clone], cause := .backRef ⟨7, ['D']⟩ }
    Codec.encode {} original = Text.ofRows ['\n'] [['A'], "\tSuppressed: B".toList,
      "\t\t[CIRCULAR REFERENCE:B]".toList, "\t[CIRCULAR REFERENCE:A]".toList] :=
  rfl

end Stacktrace
