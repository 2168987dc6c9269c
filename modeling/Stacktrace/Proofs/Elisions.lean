import Stacktrace.Proofs.Numbered
import Stacktrace.Proofs.Reread

/-!
# Texts with elisions

A text in which elisions replace frames that a failure shares with the one that it hangs off is read
as the graph that is read from the text in full (`decodeFrom_abridged_eq`). Both texts give a graph
that is like the one that was written, and graphs that have been read are equal when they are alike.
Each elision stands for the frames of the failure above it as they are in the graph, elisions in the
lines of that failure or not.
-/

namespace Stacktrace
variable {ι : Type}

/-- In a graph in which no line of a display text but its last ends as a circular reference does, no
display text ends within the text of a link. -/
theorem Lineage.linksPlainly_of_includes_eq_false {terminator : Text} {g : Failure ι}
    {p : Lineage ι}
    (hp : p ∈ g.lineages)
    (hlinks : ∀ link ∈ p.node.cause.backRef?, ∃ target ∈ p.path, target.link = link)
    (hlines : ∀ f ∈ g.nodes, f.displayText.includes (Mark.circularClose ++ terminator) = false) :
    p.LinksPlainly terminator := by
  intro link hlink
  refine ⟨hlinks link hlink, ?_⟩
  intro a _ hwithin
  obtain ⟨target, htarget, rfl⟩ := hlinks link hlink
  obtain ⟨more, hmore⟩ := hwithin
  have hincludes : target.displayText.includes (Mark.circularClose ++ terminator) = true := by
    refine Text.includes_iff.2 ⟨a.displayText, more, ?_⟩
    rw [← List.append_assoc]
    exact hmore.symm
  rw [hlines target (Failure.mem_nodes_of_mem_path hp htarget)] at hincludes
  cases hincludes

/-- Frames that a failure shares with the one that it hangs off may be left out, any number of them
in any of the failures: the same graph is read, which is like the one that was written. -/
theorem decodeFrom_abridged_eq [DecidableEq ι] {codec : Codec} {elisions : Failure.Elisions ι}
    {g : Failure ι} (hterminator : codec.config.terminator.EndsLine) (hroot : g.displayText ≠ [])
    (hids : g.ids.Nodup) (hlegible : ∀ p ∈ g.lineages, p.node.Legible codec p.depth)
    (hlinks : ∀ p ∈ g.lineages, ∀ link ∈ p.node.cause.backRef?,
      ∃ target ∈ p.path, target.link = link)
    (hlines : ∀ f ∈ g.nodes,
      f.displayText.includes (Mark.circularClose ++ codec.config.terminator) = false)
    (hshares : ∀ p ∈ g.lineages, p.node.Shares elisions p.above) (first : Nat) :
    ∃ again, codec.decodeFrom first (codec.encode g) = .ok again ∧
      codec.decodeFrom first (g.abridged elisions codec.config) = .ok again ∧
        g.alike again = true := by
  have hplainly (p : Lineage ι) (hp : p ∈ g.lineages) : p.LinksPlainly codec.config.terminator :=
    Lineage.linksPlainly_of_includes_eq_false hp (hlinks p hp) hlines
  have hfull : g.Readable codec (fun _ => none) 0 [] :=
    Failure.readable_of_lineages hids hlegible hplainly fun p _ e he => by cases he
  obtain ⟨full, hdecodeFull, halikeFull⟩ := decodeFrom_abridged hterminator hroot hfull first
  obtain ⟨again, hdecode, halike⟩ := decodeFrom_abridged hterminator hroot
    (Failure.readable_of_lineages hids hlegible hplainly hshares) first
  have hsame : full = again := by
    refine eq_of_alike_of_decodeFrom hdecodeFull hdecode ?_
    exact Failure.alike_trans (Failure.alike_symm halikeFull) halike
  rw [Failure.abridged_none] at hdecodeFull
  exact ⟨again, hsame ▸ hdecodeFull, hdecode, halike⟩

/-! Elisions one below the other: the last frame of `deepest` is that of `beside`, whose own last
frames have been left out too. -/

namespace Sharing

def call (operation : String) : Frame :=
  ⟨"p.Q".toList, operation.toList, some "S.java".toList, .number 3⟩

def deepest : Failure Nat :=
  { Failure.ofType 4 ['D'] with frames := [call "near", call "side", call "main"] }

def beside : Failure Nat :=
  { Failure.ofType 3 ['C'] with
    frames := [call "side", call "run", call "main"], cause := .owned deepest }

def source : Failure Nat :=
  { Failure.ofType 5 ['B'] with
    frames := [call "run", call "main"], cause := .backRef ⟨7, "A: x\ny]".toList⟩ }

def top : Failure Nat :=
  { Failure.ofType 7 ['A'] with
    message := some "x\ny]".toList
    frames := [call "go", call "run", call "main"]
    suppressed := [beside]
    cause := .owned source }

def leftOut : Failure.Elisions Nat
  | 3 => some { count := 2 }
  | 4 => some { count := 1, tabs := 1, zeros := 2 }
  | 5 => some { count := 2 }
  | _ => none

example : top.abridged leftOut {} = Text.ofRows ['\n']
    ["A: x\ny]".toList, "\tat p.Q.go(S.java:3)".toList, "\tat p.Q.run(S.java:3)".toList,
      "\tat p.Q.main(S.java:3)".toList, "\tSuppressed: C".toList,
      "\t\tat p.Q.side(S.java:3)".toList, "\t\t... 2 more".toList, "\tCaused by: D".toList,
      "\t\tat p.Q.near(S.java:3)".toList, "\t\tat p.Q.side(S.java:3)".toList,
      "\t\t\t... 001 more".toList, "Caused by: B".toList, "\t... 2 more".toList,
      "\t[CIRCULAR REFERENCE:A: x\ny]]".toList] :=
  rfl

theorem decodeFrom_abridged_top : ∃ again,
    Codec.decodeFrom {} 0 (Codec.encode {} top) = .ok again ∧
      Codec.decodeFrom {} 0 (top.abridged leftOut {}) = .ok again ∧ top.alike again = true := by
  have htop : top.Legible {} 0 := by
    refine ⟨.inl ⟨rfl, rfl, fun h => absurd rfl h⟩, by decide, by decide, ?_, by decide⟩
    intro text htext
    exact ⟨['x'], ["y]".toList], by simpa [top] using htext.symm, by decide, by decide⟩
  have hbelow (depth : Nat) (f : Failure Nat) (hf : f ∈ [beside, deepest, source]) :
      f.Legible {} depth := by
    simp only [List.mem_cons, List.not_mem_nil, or_false] at hf
    rcases hf with rfl | rfl | rfl <;>
      exact ⟨.inl ⟨rfl, rfl, fun h => absurd rfl h⟩, by decide, by decide,
        fun _ h => (by cases h), by decide⟩
  have hlineages : top.lineages = [⟨⟨0, .root, top⟩, []⟩, ⟨⟨1, .suppressed, beside⟩, [top]⟩,
    ⟨⟨1, .cause, deepest⟩, [beside, top]⟩, ⟨⟨0, .cause, source⟩, [top]⟩] := rfl
  have hlegible : ∀ p ∈ top.lineages, p.node.Legible {} p.depth := by
    rw [hlineages]
    simp [htop, hbelow]
  have hshares : ∀ p ∈ top.lineages, p.node.Shares leftOut p.above := by
    rw [hlineages]
    simp only [List.forall_mem_cons]
    refine ⟨fun e he => (by cases he), ?_, ?_, ?_, by simp⟩
    · rintro e ⟨⟩
      exact ⟨by decide, top, rfl, [call "run", call "main"], by decide, by decide, by decide⟩
    · rintro e ⟨⟩
      exact ⟨by decide, beside, rfl, [call "main"], by decide, by decide, by decide⟩
    · rintro e ⟨⟩
      exact ⟨by decide, top, rfl, [call "run", call "main"], by decide, by decide, by decide⟩
  exact decodeFrom_abridged_eq (.inl rfl) (by decide) (by decide) hlegible (by decide) (by decide)
    hshares 0

end Sharing
end Stacktrace
