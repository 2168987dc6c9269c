import Stacktrace.Proofs.OpenStack

/-!
# Links in graphs that have been read

A graph that has been read is closed: its identities increase along the walk, and each link leads
to the nearest failure above its holder that has the display text of the link, or to the holder
when there is none, and a search from the root finds that failure.
-/

namespace Stacktrace
variable {ι : Type}

/-- Whether `target` is what a link of the failure of a lineage leads to: the innermost failure
above with the display text of the link, or the failure itself when none above has it. -/
structure Lineage.Nearest (p : Lineage ι) (link : BackRef ι) (target : Failure ι) : Prop where
  id_eq : target.id = link.target
  displayText_eq : target.displayText = link.display
  nearest : p.above.find? (·.displayText = link.display) = some target ∨
    target = p.node ∧ ∀ a ∈ p.above, a.displayText ≠ link.display

theorem Lineage.exists_nearest {p : Lineage ι} {link : BackRef ι}
    (hnamed : p.node.Named (p.above.map Failure.scopeEntry)) (hlink : link ∈ p.node.cause.backRef?) :
    ∃ target ∈ p.path, p.Nearest link target := by
  have hscope : p.above.map Failure.scopeEntry ++ [p.node.scopeEntry] =
      (p.above ++ [p.node]).map Failure.scopeEntry := by simp
  have hfind := hnamed link hlink
  rw [hscope, List.find?_map] at hfind
  obtain ⟨target, htarget, hentry⟩ := Option.map_eq_some_iff.1 hfind
  have hid : target.id = link.target := congrArg Prod.fst hentry
  have hdisplay : target.displayText = link.display := congrArg Prod.snd hentry
  rw [List.find?_append, Option.or_eq_some_iff] at htarget
  rcases htarget with habove | ⟨hnone, hself⟩
  · exact ⟨target, List.mem_cons_of_mem _ (List.mem_of_find?_eq_some habove), hid, hdisplay,
      .inl habove⟩
  · have hnode : target = p.node := by
      simpa using List.mem_of_find?_eq_some hself
    refine ⟨target, List.mem_cons.2 (.inl hnode), hid, hdisplay, .inr ⟨hnode, ?_⟩⟩
    intro a ha heq
    exact List.find?_eq_none.1 hnone a ha (decide_eq_true heq)

section Decoded
variable {codec : Codec} {first : Nat} {t : Text} {g : Failure Nat}

theorem ids_eq_range'_of_decodeFrom (h : codec.decodeFrom first t = .ok g) :
    g.ids = List.range' first g.ids.length := by
  obtain ⟨root, next, -, rfl, hsound⟩ := (ParserState.sound_invariant codec first).of_ofLines h
  obtain ⟨n, -, hids⟩ := hsound.ids
  simp only [ParserState.idsOf, List.nil_append] at hids
  rw [hids, List.length_range']

theorem allNamed_of_decodeFrom (h : codec.decodeFrom first t = .ok g) :
    g.All Failure.scopeEntry (fun _ => Failure.Named) 0 [] := by
  obtain ⟨root, next, -, rfl, hsound⟩ := (ParserState.sound_invariant codec first).of_ofLines h
  have hlinks := hsound.stack.1.links
  rw [hsound.stack.1.position.2] at hlinks
  exact hlinks

theorem increasing_of_decodeFrom (h : codec.decodeFrom first t = .ok g) :
    g.ids.Pairwise (· < ·) := by
  rw [ids_eq_range'_of_decodeFrom h]
  exact List.pairwise_lt_range'

theorem exists_nearest_of_decodeFrom (h : codec.decodeFrom first t = .ok g) {p : Lineage Nat}
    (hp : p ∈ g.lineages) {link : BackRef Nat} (hlink : link ∈ p.node.cause.backRef?) :
    ∃ target ∈ p.path, p.Nearest link target :=
  Lineage.exists_nearest
    (Failure.all_iff_forall_mem_lineages.1 (allNamed_of_decodeFrom h) p hp) hlink

/-- A graph that has been read is closed. -/
theorem closed_of_decodeFrom (h : codec.decodeFrom first t = .ok g) :
    g.ids.Pairwise (· < ·) ∧ ∀ p ∈ g.lineages, ∀ link ∈ p.node.cause.backRef?,
      ∃ target ∈ p.path, p.Nearest link target ∧ g.resolve? link = some target := by
  have hincreasing := increasing_of_decodeFrom h
  refine ⟨hincreasing, ?_⟩
  intro p hp link hlink
  obtain ⟨target, htarget, hnearest⟩ := exists_nearest_of_decodeFrom h hp hlink
  refine ⟨target, htarget, hnearest, ?_⟩
  rw [Failure.resolve?, ← hnearest.id_eq]
  exact Failure.find?_of_mem_nodes (hincreasing.imp Nat.ne_of_lt)
    (Failure.mem_nodes_of_mem_path hp htarget)

end Decoded

/-! A graph whose cause has the display text of the root, and names the root and not itself. -/

def sameTwiceText : Text :=
  Text.ofRows ['\n'] ["A: x".toList, "Caused by: A: x".toList, "\tSuppressed: C: x".toList,
    "y".toList, "\t\t[CIRCULAR REFERENCE:C: x".toList, "y]".toList,
    "\t[CIRCULAR REFERENCE:A: x]".toList]

def sameTwice : Failure Nat :=
  let beside : Failure Nat :=
    { Failure.ofType 2 ['C'] with
      message := some ['x', '\n', 'y'], cause := .backRef ⟨2, "C: x\ny".toList⟩ }
  let source : Failure Nat :=
    { Failure.ofType 1 ['A'] with
      message := some ['x'], suppressed := [beside], cause := .backRef ⟨0, "A: x".toList⟩ }
  { Failure.ofType 0 ['A'] with message := some ['x'], cause := .owned source }

theorem closed_sameTwice :
    Codec.decodeFrom {} 0 sameTwiceText = .ok sameTwice ∧ sameTwice.ids.Pairwise (· < ·) ∧
      ∀ p ∈ sameTwice.lineages, ∀ link ∈ p.node.cause.backRef?,
        ∃ target ∈ p.path, p.Nearest link target ∧ sameTwice.resolve? link = some target := by
  have h : Codec.decodeFrom {} 0 sameTwiceText = .ok sameTwice := rfl
  exact ⟨h, closed_of_decodeFrom h⟩

end Stacktrace
